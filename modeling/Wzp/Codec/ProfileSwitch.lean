import Wzp.Codec.AudioCodecs
import Wzp.Lib.Runs

/-!
# Switching profiles

The encoder and the decoder make the codec of a profile the active one before they know
whether they can take the profile.
-/
namespace Wzp.Codec
open Bytes Proto Runs Writes

/-! ## Settings of libopus -/

def OpusSettings.Has (s : OpusSettings) : Ctl → Prop
  | .bitrate bps => s.bitrate = bps
  | .dtx enabled => s.dtx = enabled
  | .voice => s.voice = true
  | .complexity level => s.complexity = level
  | .inbandFec enabled => s.inbandFec = enabled
  | .dredDuration frames => s.dredDuration = frames
  | .packetLoss pct => s.packetLoss = pct

theorem inForce_iff (s : OpusSettings) (c : Ctl) : InForce OpusSettings.apply s c ↔ s.Has c := by
  constructor
  · intro h
    rw [← h]
    cases c <;> rfl
  · obtain ⟨_, _, _, _, _, _, _⟩ := s
    intro h
    cases c <;> cases h <;> rfl

theorem settings_lawful : Lawful OpusSettings.apply Ctl.ctorIdx := by
  constructor
  · intro s c
    cases c <;> rfl
  · intro s c c' hother h
    rw [inForce_iff] at h ⊢
    cases c <;> cases c' <;> first | exact h | exact absurd rfl hother

theorem taken_refusal (libopus : Libopus) (cs : List Ctl) :
    taken libopus.refusal cs = taken libopus cs := by
  simp only [taken, Libopus.refusal, Option.isNone_map]

/-! ## The Opus encoder -/

namespace OpusEncoder
variable {libopus : Libopus} {enc : OpusEncoder} {profile : QualityProfile} {cs cs' : List Ctl}

theorem ctls_append :
    andThen (enc.ctls libopus cs) (ctls libopus cs') = enc.ctls libopus (cs ++ cs') := by
  simp only [ctls, attempt_append, andThen]
  cases (attempt OpusSettings.apply libopus.refusal cs enc.inner).2 with
  | ok u => rfl
  | error e => rfl

theorem ctls_ok_iff : (enc.ctls libopus cs).2 = .ok () ↔ ∀ c ∈ cs, libopus c = none := by
  simp only [ctls, attempt_ok_iff, Libopus.refusal, Option.map_eq_none_iff]

theorem ctls_inner : (enc.ctls libopus cs).1.inner =
    (taken libopus cs).foldl OpusSettings.apply enc.inner := by
  simp only [ctls, attempt_fst, taken_refusal]

theorem ctls_eq_self_iff (h : (cs.map Ctl.ctorIdx).Nodup) :
    (enc.ctls libopus cs).1 = enc ↔ ∀ c ∈ taken libopus cs, enc.inner.Has c := by
  simp only [← inForce_iff, ← taken_refusal]
  rw [← attempt_fst_eq_self_iff settings_lawful h]
  constructor
  · intro heq
    exact congrArg inner heq
  · intro heq
    simp only [ctls, heq]

/-- Calls for other settings leave a setting as it is. -/
theorem ctls_has {c : Ctl} (h : enc.inner.Has c) (hother : ∀ c' ∈ cs, c.ctorIdx ≠ c'.ctorIdx) :
    (enc.ctls libopus cs).1.inner.Has c := by
  rw [ctls_inner, ← inForce_iff]
  apply inForce_foldl_kept settings_lawful ((inForce_iff _ _).mpr h)
  exact fun c' hc' => hother c' ((List.takeWhile_sublist _).subset hc')

theorem ctls_bitrate (h : ∀ c ∈ cs, c.ctorIdx ≠ (Ctl.bitrate 0).ctorIdx) :
    (enc.ctls libopus cs).1.inner.bitrate = enc.inner.bitrate :=
  ctls_has (c := .bitrate enc.inner.bitrate) rfl fun c hc heq => h c hc heq.symm

/-- The calls for a profile. -/
def profileCtls (enc : OpusEncoder) (codec : CodecId) : List Ctl :=
  .bitrate codec.bitrateBps ::
    if enc.legacyFecMode then [.inbandFec true]
    else [.inbandFec false, .dredDuration (dredDurationFor codec), .packetLoss dredLossFloorPct]

theorem profileCtls_nodup (enc : OpusEncoder) (codec : CodecId) :
    ((enc.profileCtls codec).map Ctl.ctorIdx).Nodup := by
  unfold profileCtls
  cases enc.legacyFecMode with
  | true => exact (by decide : [0, 4].Nodup)
  | false => exact (by decide : [0, 4, 5, 6].Nodup)

theorem applyProtectionMode_eq (codec : CodecId) (enc : OpusEncoder) :
    enc.applyProtectionMode libopus codec = enc.ctls libopus (enc.profileCtls codec).tail := by
  unfold applyProtectionMode profileCtls
  cases enc.legacyFecMode with
  | true => rfl
  | false => rfl

/-- The encoder that takes the codec and the frame duration of a profile. -/
def relabel (enc : OpusEncoder) (profile : QualityProfile) : OpusEncoder :=
  { enc with codecId := profile.codec, frameDurationMs := profile.frameDurationMs }

theorem setProfile_opus (h : profile.codec.isOpus = true) : enc.setProfile libopus profile =
    (enc.relabel profile).ctls libopus (enc.profileCtls profile.codec) := by
  have happend : andThen ((enc.relabel profile).applyBitrate libopus profile.codec)
      (ctls libopus (enc.profileCtls profile.codec).tail) =
        (enc.relabel profile).ctls libopus (enc.profileCtls profile.codec) := ctls_append
  rw [setProfile, if_pos h, ← happend]
  simp only [applyBitrate, relabel, andThen]
  split
  · exact applyProtectionMode_eq _ _
  · rfl

theorem setProfile_other (h : profile.codec.isOpus = false) : enc.setProfile libopus profile =
    (enc, .error (.unsupportedTransition enc.codecId profile.codec)) := by
  rw [setProfile, h]
  rfl

theorem setProfile_ok_iff : (enc.setProfile libopus profile).2 = .ok () ↔
    profile.codec.isOpus = true ∧ ∀ c ∈ enc.profileCtls profile.codec, libopus c = none := by
  cases hopus : profile.codec.isOpus with
  | false => simp [setProfile_other hopus]
  | true => simp only [setProfile_opus hopus, ctls_ok_iff, true_and]

theorem setProfile_eq_self_iff (h : profile.codec.isOpus = true) :
    (enc.setProfile libopus profile).1 = enc ↔
      enc.codecId = profile.codec ∧ enc.frameDurationMs = profile.frameDurationMs ∧
        ∀ c ∈ taken libopus (enc.profileCtls profile.codec), enc.inner.Has c := by
  have hself : ((enc.relabel profile).ctls libopus (enc.profileCtls profile.codec)).1 =
      enc.relabel profile ↔ _ := ctls_eq_self_iff (profileCtls_nodup enc profile.codec)
  rw [setProfile_opus h]
  constructor
  · intro heq
    have hcodec : enc.codecId = profile.codec := (congrArg codecId heq).symm
    have hframe : enc.frameDurationMs = profile.frameDurationMs :=
      (congrArg frameDurationMs heq).symm
    have hsame : enc.relabel profile = enc := by
      rw [relabel, ← hcodec, ← hframe]
    rw [hsame] at hself heq
    exact ⟨hcodec, hframe, hself.mp heq⟩
  · rintro ⟨hcodec, hframe, hall⟩
    have hsame : enc.relabel profile = enc := by
      rw [relabel, ← hcodec, ← hframe]
    rw [hsame] at hself ⊢
    exact hself.mpr hall

/-- Calls that are all taken set what they say. -/
theorem ctls_taken_has (hnodup : (cs.map Ctl.ctorIdx).Nodup) (h : (enc.ctls libopus cs).2 = .ok ())
    {c : Ctl} (hc : c ∈ cs) : (enc.ctls libopus cs).1.inner.Has c := by
  rw [ctls_inner, taken_eq_self (ctls_ok_iff.mp h), ← inForce_iff]
  exact inForce_foldl settings_lawful hnodup hc

/-- An encoder that takes a profile has the settings of the profile. -/
theorem setProfile_has (h : (enc.setProfile libopus profile).2 = .ok ()) {c : Ctl}
    (hc : c ∈ enc.profileCtls profile.codec) : (enc.setProfile libopus profile).1.inner.Has c := by
  have hopus := (setProfile_ok_iff.mp h).1
  rw [setProfile_opus hopus] at h ⊢
  exact ctls_taken_has (profileCtls_nodup enc profile.codec) h hc

theorem setProfile_bitrate (h : (enc.setProfile libopus profile).2 = .ok ()) :
    (enc.setProfile libopus profile).1.inner.bitrate = profile.codec.bitrateBps :=
  setProfile_has h List.mem_cons_self

theorem setProfile_legacyFecMode :
    (enc.setProfile libopus profile).1.legacyFecMode = enc.legacyFecMode := by
  cases hopus : profile.codec.isOpus with
  | true => rw [setProfile_opus hopus]; rfl
  | false => rw [setProfile_other hopus]

theorem applyProtectionMode_bitrate (libopus : Libopus) (codec : CodecId) (enc : OpusEncoder) :
    (enc.applyProtectionMode libopus codec).1.inner.bitrate = enc.inner.bitrate := by
  rw [applyProtectionMode_eq]
  have hnodup := profileCtls_nodup enc codec
  rw [profileCtls, List.map_cons, List.nodup_cons] at hnodup
  apply ctls_bitrate
  intro c hc heq
  exact hnodup.1 (heq ▸ List.mem_map_of_mem hc)

theorem setDredDuration_bitrate (frames : UInt8) :
    (enc.setDredDuration libopus frames).inner.bitrate = enc.inner.bitrate := by
  unfold setDredDuration
  split
  · rfl
  · apply ctls_bitrate
    simp [Ctl.ctorIdx]

theorem setExpectedLoss_bitrate (lossPct : UInt8) :
    (enc.setExpectedLoss libopus lossPct).inner.bitrate = enc.inner.bitrate := by
  apply ctls_bitrate
  simp [Ctl.ctorIdx]

/-- The bit rate is the first setting of a new encoder, the protection mode the last. -/
theorem new_eq {created : Except String OpusSettings} {legacyFecMode : Bool}
    (h : OpusEncoder.new libopus created legacyFecMode profile = .ok enc) :
    ∃ before : OpusEncoder, before.inner.bitrate = profile.codec.bitrateBps ∧
      before.legacyFecMode = legacyFecMode ∧ before.frameDurationMs = profile.frameDurationMs ∧
      before.applyProtectionMode libopus profile.codec = (enc, .ok ()) := by
  unfold OpusEncoder.new at h
  cases created with
  | error e => cases h
  | ok inner =>
      dsimp only at h
      generalize hstart : OpusEncoder.mk inner profile.codec profile.frameDurationMs
        legacyFecMode = start at h
      generalize hrest : (fun enc : OpusEncoder => andThen ((enc.setDtx libopus true).ctls libopus
        [.voice, .complexity 7]) (applyProtectionMode libopus profile.codec)) = rest at h
      have hok : (andThen (start.applyBitrate libopus profile.codec) rest).2 = .ok () := by
        cases hr : (andThen (start.applyBitrate libopus profile.codec) rest).2 with
        | ok u => rfl
        | error e => simp [hr, Except.map] at h
      obtain ⟨hbitrate, hlast⟩ := andThen_ok_iff.mp hok
      have hone : ([Ctl.bitrate profile.codec.bitrateBps].map Ctl.ctorIdx).Nodup :=
        List.nodup_singleton _
      have hset : (start.applyBitrate libopus profile.codec).1.inner.bitrate =
          profile.codec.bitrateBps := ctls_taken_has hone hbitrate List.mem_cons_self
      rw [hok, andThen_ok hbitrate] at h
      have henc : (rest (start.applyBitrate libopus profile.codec).1).1 = enc := Except.ok.inj h
      subst hrest
      obtain ⟨hmiddle, hprotect⟩ := andThen_ok_iff.mp hlast
      dsimp only at henc
      rw [andThen_ok hmiddle] at henc
      refine ⟨_, ?_, ?_, ?_, Prod.ext henc hprotect⟩
      · rw [ctls_bitrate (by simp [Ctl.ctorIdx]), ← hset]
        exact ctls_bitrate (by simp [Ctl.ctorIdx])
      · subst hstart
        rfl
      · subst hstart
        rfl

/-- A new encoder has the bit rate of its codec. -/
theorem new_bitrate {created : Except String OpusSettings} {legacyFecMode : Bool}
    (h : OpusEncoder.new libopus created legacyFecMode profile = .ok enc) :
    enc.inner.bitrate = profile.codec.bitrateBps := by
  obtain ⟨before, hbitrate, _, _, hprotect⟩ := new_eq h
  have hkept := applyProtectionMode_bitrate libopus profile.codec before
  rw [hprotect] at hkept
  exact hkept.trans hbitrate

theorem new_frameDurationMs {created : Except String OpusSettings} {legacyFecMode : Bool}
    (h : OpusEncoder.new libopus created legacyFecMode profile = .ok enc) :
    enc.frameDurationMs = profile.frameDurationMs := by
  obtain ⟨before, _, _, hframe, hprotect⟩ := new_eq h
  rw [applyProtectionMode_eq] at hprotect
  rw [← hframe]
  exact (congrArg (fun r => r.1.frameDurationMs) hprotect).symm

/-- The settings that a profile gives to DRED. -/
def HasDefaults (enc : OpusEncoder) (codec : CodecId) : Prop :=
  enc.inner.dredDuration = dredDurationFor codec ∧ enc.inner.packetLoss = dredLossFloorPct

theorem new_defaults {created : Except String OpusSettings}
    (h : OpusEncoder.new libopus created false profile = .ok enc) :
    enc.legacyFecMode = false ∧ enc.HasDefaults profile.codec := by
  obtain ⟨before, _, hlegacy, _, hprotect⟩ := new_eq h
  have hctls : before.ctls libopus [.inbandFec false, .dredDuration (dredDurationFor profile.codec),
      .packetLoss dredLossFloorPct] = (enc, .ok ()) := by
    rw [applyProtectionMode, hlegacy] at hprotect
    exact hprotect
  have hnodup : ([Ctl.inbandFec false, .dredDuration (dredDurationFor profile.codec),
      .packetLoss dredLossFloorPct].map Ctl.ctorIdx).Nodup := (by decide : [4, 5, 6].Nodup)
  have hhas := fun c hc => ctls_taken_has hnodup (congrArg Prod.snd hctls) (c := c) hc
  rw [hctls] at hhas
  refine ⟨?_, hhas (.dredDuration _) (by simp), hhas (.packetLoss _) (by simp)⟩
  rw [← hlegacy]
  exact congrArg (fun r => r.1.legacyFecMode) hctls.symm

theorem setProfile_defaults (h : (enc.setProfile libopus profile).2 = .ok ())
    (hlegacy : enc.legacyFecMode = false) :
    (enc.setProfile libopus profile).1.HasDefaults profile.codec := by
  have hctls : enc.profileCtls profile.codec = [.bitrate profile.codec.bitrateBps, .inbandFec false,
      .dredDuration (dredDurationFor profile.codec), .packetLoss dredLossFloorPct] := by
    rw [profileCtls, hlegacy]
    rfl
  constructor
  · exact setProfile_has (c := .dredDuration _) h (by rw [hctls]; simp)
  · exact setProfile_has (c := .packetLoss _) h (by rw [hctls]; simp)

end OpusEncoder

/-! ## Codec2 -/

namespace Codec2
variable {failed : String → CodecError} {c : Codec2} {profile : QualityProfile}

/-- The mode of the codec inside is that of its name. -/
def Sound (failed : String → CodecError) (c : Codec2) : Prop :=
  modeFor failed c.codecId = .ok c.inner

theorem modeFor_codec2 {codec : CodecId} (h : isCodec2 codec = true) :
    ∃ mode, modeFor failed codec = .ok mode := by
  cases codec <;> first | exact ⟨_, rfl⟩ | cases h

theorem new_sound (h : Codec2.new failed profile = .ok c) :
    c.Sound failed ∧ c.codecId = profile.codec := by
  unfold Codec2.new at h
  cases hmode : modeFor failed profile.codec with
  | error e => simp [hmode, Except.map] at h
  | ok mode =>
      rw [hmode] at h
      cases h
      exact ⟨hmode, rfl⟩

/-- A Codec2 profile is always taken. -/
theorem setProfile_codec2 (hc : c.Sound failed) (h : isCodec2 profile.codec = true) :
    ∃ mode, modeFor failed profile.codec = .ok mode ∧ c.setProfile failed profile =
      (⟨mode, profile.codec, profile.frameDurationMs⟩, .ok ()) := by
  obtain ⟨mode, hmode⟩ := @modeFor_codec2 failed _ h
  refine ⟨mode, hmode, ?_⟩
  rw [setProfile, if_pos h]
  by_cases hsame : profile.codec = c.codecId
  · rw [hsame, hc] at hmode
    cases hmode
    rw [if_pos hsame]
  · rw [if_neg hsame, hmode]

theorem setProfile_ok (h : isCodec2 profile.codec = true) :
    (c.setProfile failed profile).2 = .ok () := by
  obtain ⟨mode, hmode⟩ := @modeFor_codec2 failed _ h
  rw [setProfile, if_pos h, hmode]
  split
  · next heq => split at heq <;> cases heq
  · rfl

theorem setProfile_codecId (h : isCodec2 profile.codec = true) :
    (c.setProfile failed profile).1.codecId = profile.codec := by
  obtain ⟨mode, hmode⟩ := @modeFor_codec2 failed _ h
  rw [setProfile, if_pos h, hmode]
  split
  · next heq => split at heq <;> cases heq
  · rfl

end Codec2

/-! ## The adaptive encoder -/

/-- The codec of an audio profile. -/
def IsAudio (codec : CodecId) : Prop := isCodec2 codec = true ∨ codec.isOpus = true

theorem not_opus_of_codec2 {codec : CodecId} (h : isCodec2 codec = true) : codec.isOpus = false := by
  cases codec <;> first | rfl | cases h

namespace AdaptiveEncoder
variable {libopus : Libopus} {enc : AdaptiveEncoder} {profile : QualityProfile}

/-- A Codec2 profile, or an Opus profile each setting of which libopus takes. -/
def Takes (libopus : Libopus) (enc : AdaptiveEncoder) (profile : QualityProfile) : Prop :=
  isCodec2 profile.codec = true ∨
    profile.codec.isOpus = true ∧ ∀ c ∈ enc.opus.profileCtls profile.codec, libopus c = none

/-- The codec is active already. For an Opus profile the encoder has its codec, its frame
duration, and the settings that libopus takes before it refuses one. -/
def Has (libopus : Libopus) (enc : AdaptiveEncoder) (profile : QualityProfile) : Prop :=
  enc.active = profile.codec ∧
    (profile.codec.isOpus = true →
      enc.opus.codecId = profile.codec ∧ enc.opus.frameDurationMs = profile.frameDurationMs ∧
        ∀ c ∈ taken libopus (enc.opus.profileCtls profile.codec), enc.opus.inner.Has c)

/-- Both encoders have been created. -/
theorem new_parts {created : Except String OpusSettings} {legacyFecMode : Bool}
    (h : AdaptiveEncoder.new libopus created legacyFecMode profile = .ok enc) :
    OpusEncoder.new libopus created legacyFecMode (opusProfile profile) = .ok enc.opus ∧
      Codec2.new .encodeFailed (codec2Profile profile) = .ok enc.codec2 ∧
      enc.active = profile.codec := by
  unfold AdaptiveEncoder.new at h
  cases hopus : OpusEncoder.new libopus created legacyFecMode (opusProfile profile) with
  | error e => simp [hopus] at h
  | ok opus =>
      cases hcodec2 : Codec2.new .encodeFailed (codec2Profile profile) with
      | error e => simp [hopus, hcodec2, Except.map] at h
      | ok codec2 =>
          simp only [hopus, hcodec2, Except.map, Except.ok.injEq] at h
          subst h
          exact ⟨rfl, rfl, rfl⟩

theorem setProfile_codec2 (h : isCodec2 profile.codec = true) :
    enc.setProfile libopus profile = ({ enc with
      active := profile.codec, codec2 := (enc.codec2.setProfile .encodeFailed profile).1 }, .ok ()) := by
  simp only [setProfile, h, if_true, Codec2.setProfile_ok h]

theorem setProfile_opus (h : isCodec2 profile.codec = false) :
    enc.setProfile libopus profile = ({ enc with
      active := profile.codec, opus := (enc.opus.setProfile libopus profile).1 },
      (enc.opus.setProfile libopus profile).2) := by
  rw [setProfile, h]
  rfl

theorem setProfile_ok_iff : (enc.setProfile libopus profile).2 = .ok () ↔ Takes libopus enc profile := by
  unfold Takes
  cases hcodec2 : isCodec2 profile.codec with
  | true => simp [setProfile_codec2 hcodec2]
  | false =>
      rw [setProfile_opus hcodec2, OpusEncoder.setProfile_ok_iff]
      simp

theorem setProfile_eq_self_iff (h : isCodec2 profile.codec = false) :
    (enc.setProfile libopus profile).1 = enc ↔ Has libopus enc profile := by
  have hself : (enc.setProfile libopus profile).1 = enc ↔
      enc.active = profile.codec ∧ (enc.opus.setProfile libopus profile).1 = enc.opus := by
    rw [setProfile_opus h]
    constructor
    · intro heq
      exact ⟨(congrArg active heq).symm, congrArg opus heq⟩
    · rintro ⟨hactive, hopus⟩
      rw [hopus, ← hactive]
  rw [hself]
  unfold Has
  cases hopus : profile.codec.isOpus with
  | true => simp only [OpusEncoder.setProfile_eq_self_iff hopus, true_implies]
  | false => simp [OpusEncoder.setProfile_other hopus]

/-- A failed switch changes nothing exactly if there is nothing to change by then. -/
theorem setProfile_atomic_iff : Atomic (setProfile libopus profile) enc ↔
    Takes libopus enc profile ∨ Has libopus enc profile := by
  rw [atomic_iff, setProfile_ok_iff]
  cases hcodec2 : isCodec2 profile.codec with
  | true => simp [Takes, hcodec2]
  | false => rw [setProfile_eq_self_iff hcodec2]

/-! ### What encodes -/

theorem setProfile_sound (h : enc.codec2.Sound .encodeFailed) :
    (enc.setProfile libopus profile).1.codec2.Sound .encodeFailed := by
  cases hcodec2 : isCodec2 profile.codec with
  | true =>
      obtain ⟨mode, hmode, heq⟩ := Codec2.setProfile_codec2 h hcodec2
      rw [setProfile_codec2 hcodec2, heq]
      exact hmode
  | false =>
      rw [setProfile_opus hcodec2]
      exact h

theorem setProfile_encodes (h : enc.codec2.Sound .encodeFailed) (htakes : Takes libopus enc profile) :
    (enc.setProfile libopus profile).1.Encodes profile.codec := by
  have hok := setProfile_ok_iff.mpr htakes
  unfold Encodes
  cases hcodec2 : isCodec2 profile.codec with
  | true =>
      obtain ⟨mode, hmode, heq⟩ := Codec2.setProfile_codec2 h hcodec2
      rw [setProfile_codec2 hcodec2, if_pos hcodec2, heq]
      exact hmode
  | false =>
      rw [setProfile_opus hcodec2] at hok ⊢
      rw [hcodec2, if_neg Bool.false_ne_true]
      exact ⟨(OpusEncoder.setProfile_ok_iff.mp hok).1, OpusEncoder.setProfile_bitrate hok⟩

theorem Encodes.of_same {enc' : AdaptiveEncoder} {codec : CodecId} (h : enc.Encodes codec)
    (hactive : enc'.active = enc.active) (hcodec2 : enc'.codec2 = enc.codec2)
    (hbitrate : enc'.opus.inner.bitrate = enc.opus.inner.bitrate) : enc'.Encodes codec := by
  unfold Encodes at h ⊢
  rwa [hactive, hcodec2, hbitrate]

/-- A new encoder encodes with the codec of its profile, if that is an audio codec. -/
theorem new_encodes {created : Except String OpusSettings} {legacyFecMode : Bool}
    (h : AdaptiveEncoder.new libopus created legacyFecMode profile = .ok enc) :
    enc.codec2.Sound .encodeFailed ∧ (enc.Encodes profile.codec ↔ IsAudio profile.codec) := by
  obtain ⟨hopus, hcodec2, hactive⟩ := new_parts h
  obtain ⟨hsound, hname⟩ := Codec2.new_sound hcodec2
  have hbitrate := OpusEncoder.new_bitrate hopus
  refine ⟨hsound, ?_⟩
  unfold Encodes IsAudio
  rw [hactive]
  cases haudio : isCodec2 profile.codec with
  | true =>
      have hmode : modeFor .encodeFailed profile.codec = .ok enc.codec2.inner := by
        rw [codec2Profile, haudio, if_pos rfl] at hname
        exact hname ▸ hsound
      simp [hmode]
  | false =>
      rw [opusProfile, haudio, if_neg Bool.false_ne_true] at hbitrate
      simp [hbitrate]

/-! ### Every run -/

/-- A call of the encoder, with what libopus makes of it. -/
inductive Call where
  | setProfile (libopus : Libopus) (profile : QualityProfile)
  | setInbandFec (libopus : Libopus) (enabled : Bool)
  | setDtx (libopus : Libopus) (enabled : Bool)
  | setExpectedLoss (libopus : Libopus) (lossPct : UInt8)
  | setDredDuration (libopus : Libopus) (frames : UInt8)

def step (enc : AdaptiveEncoder) : Call → AdaptiveEncoder
  | .setProfile libopus profile => (enc.setProfile libopus profile).1
  | .setInbandFec libopus enabled => enc.setInbandFec libopus enabled
  | .setDtx libopus enabled => enc.setDtx libopus enabled
  | .setExpectedLoss libopus lossPct => enc.setExpectedLoss libopus lossPct
  | .setDredDuration libopus frames => enc.setDredDuration libopus frames

def AtomicAt (enc : AdaptiveEncoder) : Call → Prop
  | .setProfile libopus profile => Atomic (AdaptiveEncoder.setProfile libopus profile) enc
  | _ => True

def HarmlessAt (enc : AdaptiveEncoder) : Call → Prop
  | .setProfile libopus profile => Takes libopus enc profile ∨ Has libopus enc profile
  | _ => True

theorem run_atomic_iff (enc : AdaptiveEncoder) (calls : List Call) :
    EachStep step AtomicAt enc calls ↔ EachStep step HarmlessAt enc calls := by
  apply eachStep_congr
  intro enc call
  cases call with
  | setProfile libopus profile => exact setProfile_atomic_iff
  | _ => exact Iff.rfl

end AdaptiveEncoder

/-! ## The adaptive decoder -/

namespace AdaptiveDecoder

def step (dec : AdaptiveDecoder) (profile : QualityProfile) : AdaptiveDecoder :=
  (dec.setProfile profile).1

def AtomicAt (dec : AdaptiveDecoder) (profile : QualityProfile) : Prop :=
  Atomic (AdaptiveDecoder.setProfile profile) dec

def HarmlessAt (dec : AdaptiveDecoder) (profile : QualityProfile) : Prop :=
  IsAudio profile.codec ∨ dec.active = profile.codec

theorem setProfile_atomic_iff (dec : AdaptiveDecoder) (profile : QualityProfile) :
    dec.AtomicAt profile ↔ dec.HarmlessAt profile := by
  unfold AtomicAt HarmlessAt IsAudio
  rw [atomic_iff]
  cases hcodec2 : isCodec2 profile.codec with
  | true => simp [AdaptiveDecoder.setProfile, hcodec2, Codec2.setProfile_ok hcodec2]
  | false =>
      cases hopus : profile.codec.isOpus with
      | true => simp [AdaptiveDecoder.setProfile, hcodec2, OpusDecoder.setProfile, hopus]
      | false =>
          simp only [AdaptiveDecoder.setProfile, hcodec2, OpusDecoder.setProfile, hopus,
            Bool.false_eq_true, if_false, false_or, reduceCtorEq]
          constructor
          · intro heq
            exact (congrArg active heq).symm
          · intro hactive
            rw [← hactive]

theorem run_atomic_iff (dec : AdaptiveDecoder) (profiles : List QualityProfile) :
    EachStep step AtomicAt dec profiles ↔ EachStep step HarmlessAt dec profiles :=
  eachStep_congr setProfile_atomic_iff

end AdaptiveDecoder
end Wzp.Codec
