import Wzp.Client.ProfileSwitch
import Wzp.Proto.DredTuner

/-!
# The tuner and the encoder

The send loop gives the encoder a tuning when it is not the one the tuner remembers. A
switch to an Opus profile gives the encoder the defaults of the profile, and the tuner goes
on remembering.
-/
namespace Wzp.Client
open Bytes Proto Fec Codec Runs

/-- The encoder and the tuner of the send loop. `overwritten` is the codec the encoder has
the defaults of, if it has been given no tuning since. -/
structure DredLoop where
  encoder : VoiceEncoder
  tuner : DredTuner
  overwritten : Option CodecId

inductive DredEvent where
  | switchProfile (profile : QualityProfile)
  | encodeFrame (rq : RaptorQ) (frame : CapturedFrame)
  | poll (lossPct : Float32) (rttMs jitterMs : UInt32)
  | attachReport (report : QualityReport)

namespace DredLoop
variable (libopus : Libopus)

def start (encoder : VoiceEncoder) (config : CallConfig) : DredLoop where
  encoder
  tuner := .new config.profile.codec
  overwritten := some (opusProfile config.profile).codec

/-- The tuner hears of the profiles that are taken. -/
def switchProfile (s : DredLoop) (profile : QualityProfile) : DredLoop :=
  let r := s.encoder.setProfile libopus profile
  { encoder := r.1
    tuner := if r.2.isOk then s.tuner.setCodec profile.codec else s.tuner
    overwritten := if profile.codec.isOpus then some profile.codec else s.overwritten }

def poll (s : DredLoop) (lossPct : Float32) (rttMs jitterMs : UInt32) : DredLoop :=
  let r := s.tuner.update lossPct rttMs jitterMs
  match r.2 with
  | some tuning =>
      { encoder := s.encoder.applyDredTuning libopus tuning.dredFrames tuning.expectedLossPct
        tuner := r.1
        overwritten := none }
  | none => { s with tuner := r.1 }

def step (s : DredLoop) : DredEvent → DredLoop
  | .switchProfile profile => s.switchProfile libopus profile
  | .encodeFrame rq frame => { s with encoder := s.encoder.step (.encodeFrame rq frame) }
  | .poll lossPct rttMs jitterMs => s.poll libopus lossPct rttMs jitterMs
  | .attachReport report => { s with encoder := s.encoder.step (.setPendingQualityReport report) }

def opus (s : DredLoop) : OpusEncoder := s.encoder.audioEnc.opus

/-- The settings in force are those the tuner remembers. -/
def Agrees (s : DredLoop) : Prop :=
  s.opus.inner.dredDuration = s.tuner.current.dredFrames ∧
    s.opus.inner.packetLoss = max dredLossFloorPct s.tuner.current.expectedLossPct

/-- The property of a step: that of a poll while an Opus codec is active. -/
def AgreesAt (s : DredLoop) : DredEvent → Prop
  | .poll lossPct rttMs jitterMs =>
      s.encoder.call.profile.codec.isOpus = true → (s.poll libopus lossPct rttMs jitterMs).Agrees
  | _ => True

/-- A poll that gives the tuning the tuner remembers finds no defaults in the encoder, or
such as are what it remembers. -/
def KnowsAt (s : DredLoop) : DredEvent → Prop
  | .poll lossPct rttMs jitterMs =>
      s.encoder.call.profile.codec.isOpus = true →
        s.tuner.tuningFor lossPct rttMs jitterMs = s.tuner.current →
          ∀ codec, s.overwritten = some codec →
            s.tuner.current.dredFrames = dredDurationFor codec ∧
              s.tuner.current.expectedLossPct ≤ dredLossFloorPct
  | _ => True

/-! ## The encoder -/

variable {libopus : Libopus} {s : DredLoop} {profile : QualityProfile}

theorem bitrate_documented {codec : CodecId} (h : codec.isOpus = true) :
    (Ctl.bitrate codec.bitrateBps).Documented := by
  cases codec <;> first | exact ⟨by decide, by decide⟩ | cases h

theorem dredDuration_documented (codec : CodecId) : (Ctl.dredDuration (dredDurationFor codec)).Documented := by
  change dredDurationFor codec ≤ 104
  cases codec <;> decide

theorem profileCtls_documented (enc : OpusEncoder) {codec : CodecId} (h : codec.isOpus = true) :
    ∀ c ∈ enc.profileCtls codec, c.Documented := by
  unfold OpusEncoder.profileCtls
  rw [List.forall_mem_cons]
  refine ⟨bitrate_documented h, ?_⟩
  cases enc.legacyFecMode with
  | true => simp [Ctl.Documented]
  | false =>
      have hdred := dredDuration_documented codec
      have hloss : (Ctl.packetLoss dredLossFloorPct).Documented := (by decide : (15 : UInt8) ≤ 100)
      simp only [Bool.false_eq_true, if_false, List.forall_mem_cons, List.not_mem_nil, false_implies,
        implies_true, and_true]
      exact ⟨trivial, hdred, hloss⟩

/-- libopus takes every setting of an audio profile. -/
theorem takes_audio (hlibopus : ∀ c : Ctl, c.Documented → libopus c = none) {enc : AdaptiveEncoder}
    (h : IsAudio profile.codec) : AdaptiveEncoder.Takes libopus enc profile := by
  rcases h with hcodec2 | hopus
  · exact Or.inl hcodec2
  · exact Or.inr ⟨hopus, fun c hc => hlibopus c (profileCtls_documented enc.opus hopus c hc)⟩

/-- Only an Opus profile reaches the Opus encoder. -/
theorem setProfile_opus_other (enc : AdaptiveEncoder) (h : profile.codec.isOpus = false) :
    (enc.setProfile libopus profile).1.opus = enc.opus := by
  cases hcodec2 : isCodec2 profile.codec with
  | true => rw [AdaptiveEncoder.setProfile_codec2 hcodec2]
  | false => rw [AdaptiveEncoder.setProfile_opus hcodec2, OpusEncoder.setProfile_other h]

/-- A tuning in the range of libopus is in force after it is applied. -/
theorem applyDredTuning_settings (hlibopus : ∀ c : Ctl, c.Documented → libopus c = none)
    (enc : VoiceEncoder) (hlegacy : enc.audioEnc.opus.legacyFecMode = false) {frames lossPct : UInt8}
    (hframes : frames ≤ 104) (hloss : lossPct ≤ 100) :
    let opus := (enc.applyDredTuning libopus frames lossPct).audioEnc.opus
    opus.legacyFecMode = false ∧ opus.inner.dredDuration = frames ∧
      opus.inner.packetLoss = max dredLossFloorPct lossPct := by
  have hmin : min frames 104 = frames := if_pos hframes
  have hmin' : min lossPct 100 = lossPct := if_pos hloss
  have hmax : max dredLossFloorPct lossPct ≤ 100 := by
    change (if dredLossFloorPct ≤ lossPct then lossPct else dredLossFloorPct) ≤ 100
    split
    · exact hloss
    · decide
  have hdred := hlibopus (.dredDuration frames) hframes
  have hpacket := hlibopus (.packetLoss (max dredLossFloorPct lossPct)) hmax
  simp [VoiceEncoder.applyDredTuning, AdaptiveEncoder.setExpectedLoss,
    AdaptiveEncoder.setDredDuration, OpusEncoder.setExpectedLoss, OpusEncoder.setDredDuration,
    OpusEncoder.ctls, Writes.attempt, Libopus.refusal, OpusSettings.apply, hlegacy, hmin, hmin',
    hdred, hpacket]

/-! ## The invariant -/

/-- The encoder has what the tuner remembers, or the defaults of a codec. -/
structure Tracks (s : DredLoop) : Prop where
  legacy : s.opus.legacyFecMode = false
  codec : s.tuner.codec = s.encoder.call.profile.codec
  tuned : s.overwritten = none → s.Agrees
  defaults : ∀ codec, s.overwritten = some codec → s.opus.HasDefaults codec

theorem start_tracks {created : Except String OpusSettings} {config : CallConfig}
    {enc : VoiceEncoder} (h : VoiceEncoder.new libopus created false config = some enc) :
    Tracks (start enc config) := by
  unfold VoiceEncoder.new at h
  cases hnew : AdaptiveEncoder.new libopus created false config.profile with
  | error e => simp [hnew] at h
  | ok audioEnc =>
      simp only [hnew, Option.some.injEq] at h
      obtain ⟨hlegacy, hdefaults⟩ := OpusEncoder.new_defaults (AdaptiveEncoder.new_parts hnew).1
      subst h
      refine ⟨hlegacy, rfl, ?_, ?_⟩
      · intro hnone
        cases hnone
      · intro codec hcodec
        cases hcodec
        exact hdefaults

theorem switchProfile_tracks (hlibopus : ∀ c : Ctl, c.Documented → libopus c = none)
    (h : Tracks s) (profile : QualityProfile) : Tracks (s.switchProfile libopus profile) := by
  cases hopus : profile.codec.isOpus with
  | true =>
      have htakes : AdaptiveEncoder.Takes libopus s.encoder.audioEnc profile :=
        takes_audio hlibopus (Or.inr hopus)
      have hcodec2 : isCodec2 profile.codec = false := by
        rw [← Bool.not_eq_true]
        intro hcodec2
        rw [not_opus_of_codec2 hcodec2] at hopus
        cases hopus
      have hok := AdaptiveEncoder.setProfile_ok_iff.mpr htakes
      have hset : (s.switchProfile libopus profile).opus =
          (s.opus.setProfile libopus profile).1 := by
        rw [switchProfile, VoiceEncoder.setProfile_taken htakes,
          AdaptiveEncoder.setProfile_opus hcodec2]
        rfl
      have hover : (s.switchProfile libopus profile).overwritten = some profile.codec :=
        if_pos hopus
      rw [AdaptiveEncoder.setProfile_opus hcodec2] at hok
      constructor
      · rw [hset, OpusEncoder.setProfile_legacyFecMode]
        exact h.legacy
      · rw [switchProfile, VoiceEncoder.setProfile_taken htakes]
        rfl
      · rw [hover]
        intro hnone
        cases hnone
      · rw [hover, hset]
        intro codec hcodec
        cases hcodec
        exact OpusEncoder.setProfile_defaults hok h.legacy
  | false =>
      have hset : (s.switchProfile libopus profile).opus = s.opus :=
        setProfile_opus_other s.encoder.audioEnc hopus
      have hover : (s.switchProfile libopus profile).overwritten = s.overwritten := by
        rw [switchProfile, hopus]
        rfl
      have htuning : (s.switchProfile libopus profile).tuner.current = s.tuner.current := by
        unfold switchProfile
        dsimp only
        split <;> rfl
      constructor
      · rw [hset]
        exact h.legacy
      · unfold switchProfile VoiceEncoder.setProfile
        dsimp only
        split
        · next hok => rw [hok]; rfl
        · next hfailed =>
            rw [Bool.not_eq_true] at hfailed
            rw [hfailed]
            exact h.codec
      · rw [hover]
        unfold Agrees
        rw [hset, htuning]
        exact h.tuned
      · rw [hover, hset]
        exact h.defaults

/-- A poll with the tuning that is remembered leaves the encoder alone. -/
theorem poll_unchanged {lossPct : Float32} {rttMs jitterMs : UInt32}
    (h : s.tuner.codec.isOpus = true)
    (hsame : s.tuner.tuningFor lossPct rttMs jitterMs = s.tuner.current) :
    s.poll libopus lossPct rttMs jitterMs = { s with tuner := s.tuner.observeJitter jitterMs } := by
  rw [poll, DredTuner.update_unchanged h hsame]

theorem poll_other {lossPct : Float32} {rttMs jitterMs : UInt32} (h : s.tuner.codec.isOpus = false) :
    s.poll libopus lossPct rttMs jitterMs = s := by
  rw [poll, DredTuner.update_other h]

/-- A poll with another tuning gives it to the encoder. -/
theorem poll_changed (hlibopus : ∀ c : Ctl, c.Documented → libopus c = none) (hs : Tracks s)
    {lossPct : Float32} {rttMs jitterMs : UInt32} (h : s.tuner.codec.isOpus = true)
    (hchanged : s.tuner.tuningFor lossPct rttMs jitterMs ≠ s.tuner.current) :
    Tracks (s.poll libopus lossPct rttMs jitterMs) ∧
      (s.poll libopus lossPct rttMs jitterMs).overwritten = none := by
  have hframes : (s.tuner.tuningFor lossPct rttMs jitterMs).dredFrames ≤ 104 :=
    DredTuner.dredFrames_le h
  have hloss : (s.tuner.tuningFor lossPct rttMs jitterMs).expectedLossPct ≤ 100 :=
    DredTuner.expectedLoss_le
  obtain ⟨hlegacy, hdred, hpacket⟩ :=
    applyDredTuning_settings hlibopus s.encoder hs.legacy hframes hloss
  rw [poll, DredTuner.update_changed h hchanged]
  refine ⟨⟨hlegacy, hs.codec, fun _ => ⟨hdred, hpacket⟩, ?_⟩, rfl⟩
  intro codec hcodec
  cases hcodec

theorem step_tracks (hlibopus : ∀ c : Ctl, c.Documented → libopus c = none) (s : DredLoop)
    (e : DredEvent) (h : Tracks s) : Tracks (s.step libopus e) := by
  cases e with
  | switchProfile profile => exact switchProfile_tracks hlibopus h profile
  | encodeFrame rq frame =>
      refine ⟨h.legacy, ?_, h.tuned, h.defaults⟩
      exact h.codec.trans
        (congrArg QualityProfile.codec (CallEncoder.encodeFrame_keeps rq s.encoder.call frame).1.symm)
  | attachReport report => exact ⟨h.legacy, h.codec, h.tuned, h.defaults⟩
  | poll lossPct rttMs jitterMs =>
      rw [step]
      cases hopus : s.tuner.codec.isOpus with
      | false =>
          rw [poll_other hopus]
          exact h
      | true =>
          by_cases hsame : s.tuner.tuningFor lossPct rttMs jitterMs = s.tuner.current
          · rw [poll_unchanged hopus hsame]
            exact ⟨h.legacy, h.codec, h.tuned, h.defaults⟩
          · exact (poll_changed hlibopus h hopus hsame).1

/-- The defaults of a codec are what the tuner remembers. -/
theorem agrees_of_defaults {codec : CodecId} (h : s.opus.HasDefaults codec) : s.Agrees ↔
    s.tuner.current.dredFrames = dredDurationFor codec ∧
      s.tuner.current.expectedLossPct ≤ dredLossFloorPct := by
  unfold Agrees
  rw [h.1, h.2]
  apply and_congr eq_comm
  change dredLossFloorPct = (if dredLossFloorPct ≤ s.tuner.current.expectedLossPct then
    s.tuner.current.expectedLossPct else dredLossFloorPct) ↔ _
  split
  · next hle =>
      constructor
      · exact fun heq => heq ▸ UInt8.le_refl _
      · exact fun hge => UInt8.le_antisymm hle hge
  · next hlt => exact ⟨fun _ => UInt8.le_of_lt (UInt8.not_le.mp hlt), fun _ => rfl⟩

theorem agreesAt_iff (hlibopus : ∀ c : Ctl, c.Documented → libopus c = none) (s : DredLoop)
    (e : DredEvent) (h : Tracks s) : AgreesAt libopus s e ↔ KnowsAt s e := by
  cases e with
  | poll lossPct rttMs jitterMs =>
      rw [AgreesAt, KnowsAt]
      apply imp_congr_right
      intro hopus
      rw [← h.codec] at hopus
      by_cases hsame : s.tuner.tuningFor lossPct rttMs jitterMs = s.tuner.current
      · rw [poll_unchanged hopus hsame]
        cases hover : s.overwritten with
        | none => exact ⟨fun _ _ _ hcodec => (by cases hcodec), fun _ => h.tuned hover⟩
        | some codec =>
            refine Iff.trans (agrees_of_defaults (h.defaults codec hover)) ?_
            constructor
            · rintro hknows _ _ hcodec
              cases hcodec
              exact hknows
            · exact fun hknows => hknows hsame codec rfl
      · obtain ⟨htracks, hnone⟩ := poll_changed hlibopus h hopus hsame
        exact ⟨fun _ heq => absurd heq hsame, fun _ => htracks.tuned hnone⟩
  | _ => exact Iff.rfl

/-! ## Every run -/

/-- In every run of the loop, the tuner and the encoder agree after each poll with an Opus
codec exactly if no such poll gives the tuning of before to an encoder that a switch has
given other defaults since. -/
theorem dred_agrees_iff (hlibopus : ∀ c : Ctl, c.Documented → libopus c = none)
    (created : Except String OpusSettings) (config : CallConfig) (enc : VoiceEncoder)
    (h : VoiceEncoder.new libopus created false config = some enc) (events : List DredEvent) :
    EachStep (step libopus) (AgreesAt libopus) (start enc config) events ↔
      EachStep (step libopus) KnowsAt (start enc config) events :=
  eachStep_congr_of_invariant (step_tracks hlibopus) (agreesAt_iff hlibopus) (start_tracks h)

/-- libopus with its documented ranges. -/
def documentedLibopus : Libopus
  | .bitrate bps => if 500 ≤ bps ∧ bps ≤ 512000 then none else some "BadArg"
  | .complexity level => if level ≤ 10 then none else some "BadArg"
  | .dredDuration frames => if frames ≤ 104 then none else some "BadArg"
  | .packetLoss pct => if pct ≤ 100 then none else some "BadArg"
  | _ => none

theorem documentedLibopus_takes (c : Ctl) (h : c.Documented) : documentedLibopus c = none := by
  cases c <;> first | rfl | exact if_pos h

/-- The encoder of a call with the default profile. -/
def goodEncoder : Option VoiceEncoder :=
  VoiceEncoder.new documentedLibopus (.ok VoiceEncoder.opusDefaults) false .default

theorem steady_polls_agree : ∃ enc, goodEncoder = some enc ∧
    EachStep (step documentedLibopus) (AgreesAt documentedLibopus) (start enc .default)
      [.poll 40 50 5, .switchProfile .catastrophic, .poll 0 50 5, .switchProfile .good,
        .poll 0 50 5] := by
  refine ⟨_, rfl, ?_⟩
  apply (dred_agrees_iff documentedLibopus_takes (.ok VoiceEncoder.opusDefaults) .default _ rfl _).mpr
  refine ⟨?_, trivial, ?_, trivial, ?_, trivial⟩
  · exact fun _ hsame => absurd hsame (by decide +kernel)
  · exact fun hopus => absurd hopus (by decide +kernel)
  · exact fun _ hsame => absurd hsame (by decide +kernel)

/-- Between two polls with the same loss there is a spell of Codec2. Back with Opus the
tuner has nothing to say, and the encoder stays at the defaults. -/
theorem spell_of_codec2_disagrees : ∃ enc, goodEncoder = some enc ∧
    ¬ EachStep (step documentedLibopus) (AgreesAt documentedLibopus) (start enc .default)
      [.poll 40 50 5, .switchProfile .catastrophic, .switchProfile .good, .poll 40 50 5] := by
  refine ⟨_, rfl, ?_⟩
  intro h
  have hagrees := h.2.2.2.1 (by decide +kernel)
  exact absurd hagrees.1 (by decide +kernel)

end DredLoop
end Wzp.Client
