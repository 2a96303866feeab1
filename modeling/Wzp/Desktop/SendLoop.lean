import Wzp.Client.FecLabels
import Wzp.Codec.ProfileSwitch

/-!
# The send loop

Before each frame the loop applies the quality that both clients are on, or the cap of
the peer if that is lower. After each frame it applies what the adaptive controller or
the relay recommends, unless the user has picked a quality. Only the first of the two
is remembered as applied.
-/
namespace Wzp.Desktop
open Bytes Client Proto Fec Runs
open Codec (isCodec2 Libopus OpusEncoder)

/-! ## Profiles

The profile of a quality that is picked by hand, of a codec that is received, and
the index under which a profile is handed from one task to another. -/

def codec2Profile3200 : QualityProfile :=
  { QualityProfile.good with
    codec := .codec2_3200, fecRatio := 0.5, frameDurationMs := 20, framesPerBlock := 5 }

/-- Nothing for `auto`. -/
def resolveQuality (quality : String) : Option QualityProfile :=
  match quality with
  | "good" | "opus" => some .good
  | "degraded" | "opus6k" => some .degraded
  | "catastrophic" | "codec2-1200" => some .catastrophic
  | "codec2-3200" => some codec2Profile3200
  | "studio-32k" => some .studio32k
  | "studio-48k" => some .studio48k
  | "studio-64k" => some .studio64k
  | _ => none

def codecToProfile (codec : CodecId) : QualityProfile :=
  match codec with
  | .opus24k => .good
  | .opus6k => .degraded
  | .opus32k => .studio32k
  | .opus48k => .studio48k
  | .opus64k => .studio64k
  | .codec2_1200 => .catastrophic
  | .codec2_3200 => codec2Profile3200
  | other => { QualityProfile.good with codec := other }

def profileToIndex (p : QualityProfile) : UInt8 :=
  match p.codec with
  | .opus64k => 0
  | .opus48k => 1
  | .opus32k => 2
  | .opus24k => 3
  | .opus6k => 4
  | .codec2_1200 => 5
  | _ => 3

def indexToProfile (idx : UInt8) : Option QualityProfile :=
  match idx with
  | 0 => some .studio64k
  | 1 => some .studio48k
  | 2 => some .studio32k
  | 3 => some .good
  | 4 => some .degraded
  | 5 => some .catastrophic
  | _ => none

/-! ## The encoder -/

/-- libopus: the codecs whose bit rate it takes, and the frames, by their number of
samples, that it encodes. -/
structure OpusBackend where
  takes : CodecId → Bool
  encodes : ℕ → Bool

/-- The encoder over both codecs: which of them is active, and what each is set to. -/
structure AdaptiveEncoder where
  active : CodecId
  opusFrameMs : UInt8
  codec2 : CodecId
  deriving DecidableEq, Repr

namespace AdaptiveEncoder

def new (profile : QualityProfile) : AdaptiveEncoder :=
  ⟨profile.codec, profile.frameDurationMs,
    if isCodec2 profile.codec then profile.codec else .codec2_3200⟩

/-- The codec is active whether or not the profile is taken. -/
def setProfile (opus : OpusBackend) (enc : AdaptiveEncoder) (profile : QualityProfile) :
    AdaptiveEncoder × Bool :=
  let enc := { enc with active := profile.codec }
  if isCodec2 profile.codec then ({ enc with codec2 := profile.codec }, true)
  else if profile.codec.isOpus then
    ({ enc with opusFrameMs := profile.frameDurationMs }, opus.takes profile.codec)
  else (enc, false)

/-- Samples of a frame at 8 kHz. -/
def codec2Samples : CodecId → ℕ
  | .codec2_1200 => 320
  | _ => 160

/-- Whether a frame of so many samples at 48 kHz is encoded. -/
def encodes (opus : OpusBackend) (enc : AdaptiveEncoder) (samples : ℕ) : Bool :=
  if isCodec2 enc.active then codec2Samples enc.codec2 ≤ samples / 6
  else samples = 48000 * enc.opusFrameMs.toNat / 1000 && opus.encodes samples

end AdaptiveEncoder

/-- Whether the encoder takes a profile. -/
def OpusBackend.accepts (opus : OpusBackend) (profile : QualityProfile) : Bool :=
  isCodec2 profile.codec || (profile.codec.isOpus && opus.takes profile.codec)

/-! ### The encoder with all its settings -/

/-- What an Opus encoder takes if libopus takes the settings of the profile. -/
def OpusBackend.over (libopus : Libopus) (enc : OpusEncoder) (encodes : ℕ → Bool) : OpusBackend :=
  ⟨fun codec => (enc.profileCtls codec).all fun c => (libopus c).isNone, encodes⟩

namespace AdaptiveEncoder
variable {libopus : Libopus} {enc : Codec.AdaptiveEncoder} {profile : QualityProfile}

/-- What the loop depends on. -/
def ofEncoder (enc : Codec.AdaptiveEncoder) : AdaptiveEncoder :=
  ⟨enc.active, enc.opus.frameDurationMs, enc.codec2.codecId⟩

theorem isOk_iff {ε : Type} {r : Except ε Unit} : r.isOk = true ↔ r = .ok () := by
  cases r with
  | ok u => exact iff_of_true rfl rfl
  | error e => exact iff_of_false Bool.false_ne_true nofun

theorem ofEncoder_new {created : Except String Codec.OpusSettings} {legacyFecMode : Bool}
    (h : Codec.AdaptiveEncoder.new libopus created legacyFecMode profile = .ok enc) :
    ofEncoder enc = new profile := by
  obtain ⟨hopus, hcodec2, hactive⟩ := Codec.AdaptiveEncoder.new_parts h
  have hframe := OpusEncoder.new_frameDurationMs hopus
  obtain ⟨-, hname⟩ := Codec.Codec2.new_sound hcodec2
  rw [ofEncoder, hactive, hframe, hname]
  rfl

/-- A profile is taken, and changes what the loop depends on, as the encoder itself has it. -/
theorem ofEncoder_setProfile (encodes : ℕ → Bool) :
    (ofEncoder enc).setProfile (.over libopus enc.opus encodes) profile =
      (ofEncoder (enc.setProfile libopus profile).1, (enc.setProfile libopus profile).2.isOk) := by
  cases hcodec2 : isCodec2 profile.codec with
  | true =>
      have hname : (enc.codec2.setProfile .encodeFailed profile).1.codecId = profile.codec :=
        Codec.Codec2.setProfile_codecId hcodec2
      rw [Codec.AdaptiveEncoder.setProfile_codec2 hcodec2, setProfile, if_pos hcodec2]
      simp only [ofEncoder, hname]
      rfl
  | false =>
      rw [Codec.AdaptiveEncoder.setProfile_opus hcodec2, setProfile, if_neg (by simp [hcodec2])]
      cases hopus : profile.codec.isOpus with
      | true =>
          have hok := @OpusEncoder.setProfile_ok_iff libopus enc.opus profile
          rw [OpusEncoder.setProfile_opus hopus] at hok ⊢
          rw [if_pos rfl]
          refine Prod.ext rfl (Bool.eq_iff_iff.mpr ?_)
          rw [isOk_iff, hok, OpusBackend.over, List.all_eq_true]
          simp only [hopus, true_and, Option.isNone_iff_eq_none]
      | false =>
          rw [OpusEncoder.setProfile_other hopus]
          rfl

/-- A profile leaves open what is taken after it. -/
theorem over_setProfile (encodes : ℕ → Bool) :
    OpusBackend.over libopus (enc.setProfile libopus profile).1.opus encodes =
      .over libopus enc.opus encodes := by
  have hlegacy : (enc.setProfile libopus profile).1.opus.legacyFecMode =
      enc.opus.legacyFecMode := by
    cases hcodec2 : isCodec2 profile.codec with
    | true => rw [Codec.AdaptiveEncoder.setProfile_codec2 hcodec2]
    | false =>
        rw [Codec.AdaptiveEncoder.setProfile_opus hcodec2]
        exact OpusEncoder.setProfile_legacyFecMode
  unfold OpusBackend.over OpusEncoder.profileCtls
  rw [hlegacy]

end AdaptiveEncoder

instance : BEq QualityProfile where
  beq p q := p.codec == q.codec && p.fecRatio == q.fecRatio &&
    p.frameDurationMs == q.frameDurationMs && p.framesPerBlock == q.framesPerBlock &&
    p.priorityMode == q.priorityMode && p.videoBitrateKbps == q.videoBitrateKbps &&
    p.videoResolution == q.videoResolution && p.videoFps == q.videoFps

def callConfigFromProfile (profile : QualityProfile) : CallConfig :=
  let (jitterTarget, jitterMax, jitterMin) :=
    if profile == .catastrophic then (20, 500, 8)
    else if profile == .degraded then (15, 350, 5)
    else (10, 250, 3)
  { CallConfig.default with profile, jitterTarget, jitterMax, jitterMin }

def buildCallConfig (quality : String) : CallConfig :=
  match resolveQuality quality with
  | some p => { callConfigFromProfile p with suppressionEnabled := false }
  | none => { CallConfig.default with suppressionEnabled := false }

def profileNoChange : UInt8 := 0xFF

/-- A frame given to the encoder: the profile it had then, the cap read before it, where
the frame is in its block, and what came out. -/
structure SendRecord where
  profile : QualityProfile
  cap : Option QualityProfile
  blockId : UInt8
  frameInBlock : UInt8
  packets : Option (List MediaPacket)

/-- The send task with the slots that others write. `switched` is the profile it has
switched to on a recommendation since it last applied one from the slots. -/
structure SendLoop where
  quality : String
  activeQuality : QualityProfile
  peerMaxQuality : Option QualityProfile
  pendingProfile : UInt8
  encoder : CallEncoder
  audioEnc : AdaptiveEncoder
  frameSamples : ℕ
  lastApplied : Option QualityProfile
  switched : Option QualityProfile
  upgraded : Bool
  panicked : Bool
  frames : List SendRecord

/-- What an iteration finds: samples in the capture ring, what the detector and the codec
make of the frame, and a report that falls due after it. -/
structure Capture where
  available : ℕ
  silent : Bool
  encoded : Buf
  report : Option QualityReport

inductive SendEvent where
  | upgrade (profile : QualityProfile)
  | qualityCapability (maxProfile : QualityProfile)
  | recommend (profile : QualityProfile)
  | iterate (capture : Capture)

/-- The samples the buffer of the task has room for. -/
def sendBuffer : ℕ := 1920

namespace SendLoop
variable (rq : RaptorQ) (opus : OpusBackend)

/-- The slots of the signal state outlive a call. -/
def start (quality : String) (activeQuality : QualityProfile)
    (peerMaxQuality : Option QualityProfile) : SendLoop where
  quality
  activeQuality
  peerMaxQuality
  pendingProfile := profileNoChange
  encoder := .new (buildCallConfig quality)
  audioEnc := .new (buildCallConfig quality).profile
  frameSamples := (buildCallConfig quality).profile.frameDurationMs.toNat * 48
  lastApplied := none
  switched := none
  upgraded := false
  panicked := false
  frames := []

def effectiveProfile (s : SendLoop) : QualityProfile :=
  match s.peerMaxQuality with
  | some cap =>
      if cap.codec.bitrateBps < s.activeQuality.codec.bitrateBps then cap else s.activeQuality
  | none => s.activeQuality

/-- The effective profile is not the one applied last. -/
def due (s : SendLoop) : Bool :=
  match s.lastApplied with
  | some last => !(s.effectiveProfile == last)
  | none => true

def setProfile (s : SendLoop) (profile : QualityProfile) : SendLoop × Bool :=
  let (audioEnc, accepted) := s.audioEnc.setProfile opus profile
  ({ s with
      audioEnc
      encoder := s.encoder.setProfile profile accepted
      frameSamples := if accepted then profile.frameDurationMs.toNat * 48 else s.frameSamples },
    accepted)

def applyEffective (s : SendLoop) : SendLoop :=
  if s.due then
    match s.setProfile opus s.effectiveProfile with
    | (s', true) => { s' with lastApplied := some s.effectiveProfile, switched := none }
    | (s', false) => s'
  else s

def encodeFrame (s : SendLoop) (capture : Capture) : SendLoop :=
  let encoded := if s.audioEnc.encodes opus s.frameSamples then some capture.encoded else none
  let (encoder, packets) := s.encoder.encodeFrame rq ⟨capture.silent, encoded⟩
  { s with
    encoder
    frames := ⟨s.encoder.profile, s.peerMaxQuality, s.encoder.blockId, s.encoder.frameInBlock,
      packets⟩ :: s.frames }

/-- `lastApplied` stays. -/
def adaptiveSwitch (s : SendLoop) : SendLoop :=
  if (resolveQuality s.quality).isNone then
    match indexToProfile s.pendingProfile with
    | some profile =>
        match { s with pendingProfile := profileNoChange }.setProfile opus profile with
        | (s', true) => { s' with switched := some profile }
        | (s', false) => s'
    | none => { s with pendingProfile := profileNoChange }
  else s

def attachReport (s : SendLoop) (report : Option QualityReport) : SendLoop :=
  match report with
  | some r => { s with encoder := s.encoder.setPendingQualityReport r }
  | none => s

/-- A frame longer than the buffer is a slice out of range. -/
def sendFrame (s : SendLoop) (capture : Capture) : SendLoop :=
  if capture.available < s.frameSamples then s
  else if sendBuffer < s.frameSamples then { s with panicked := true }
  else ((s.encodeFrame rq opus capture).adaptiveSwitch opus).attachReport capture.report

def step (s : SendLoop) : SendEvent → SendLoop
  | .upgrade profile => { s with activeQuality := profile, upgraded := true }
  | .qualityCapability maxProfile => { s with peerMaxQuality := some maxProfile }
  | .recommend profile => { s with pendingProfile := profileToIndex profile }
  | .iterate capture =>
      if s.panicked then s else (s.applyEffective opus).sendFrame rq opus capture

end SendLoop

/-! ## The choice of the user and the cap of the peer -/

/-- The cap is lower than the profile. -/
def CapsBelow (cap : Option QualityProfile) (profile : QualityProfile) : Prop :=
  ∃ c, cap = some c ∧ c.codec.bitrateBps < profile.codec.bitrateBps

namespace SendLoop

/-- A frame that is sent is not above the cap read before it. With a picked quality it
has that quality, unless the cap is lower or there was an upgrade in the call. -/
structure Honoured (s : SendLoop) : Prop where
  capped : ∀ f ∈ s.frames, f.packets.isSome → ∀ cap, f.cap = some cap →
    f.profile.codec.bitrateBps ≤ cap.codec.bitrateBps
  selected : ∀ p, resolveQuality s.quality = some p → s.upgraded = false →
    ∀ f ∈ s.frames, f.packets.isSome → ¬ CapsBelow f.cap p → f.profile = p

/-- An effective profile that matters and has to be applied is one the encoder takes, the
controller has not switched above a cap since the last was applied, and the active
quality is the one that was picked. -/
structure Heeds (opus : OpusBackend) (s : SendLoop) : Prop where
  accepted : s.due = true →
    s.peerMaxQuality.isSome ∨ ((resolveQuality s.quality).isSome ∧ s.upgraded = false) →
      opus.accepts s.effectiveProfile = true
  switched : s.due = false → ∀ cap, s.peerMaxQuality = some cap → ∀ p, s.switched = some p →
    p.codec.bitrateBps ≤ cap.codec.bitrateBps
  selected : ∀ p, resolveQuality s.quality = some p → s.upgraded = false →
    ¬ CapsBelow s.peerMaxQuality p → s.activeQuality = p

/-- The condition on an event: that of an iteration. -/
def HeedsAt (opus : OpusBackend) (s : SendLoop) : SendEvent → Prop
  | .iterate _ => Heeds opus s
  | _ => True

/-! ## Each operation -/

variable {rq : RaptorQ} {opus : OpusBackend} {s : SendLoop}

theorem accepts_eq (opus : OpusBackend) (enc : AdaptiveEncoder) (profile : QualityProfile) :
    (enc.setProfile opus profile).2 = opus.accepts profile := by
  unfold AdaptiveEncoder.setProfile OpusBackend.accepts
  by_cases hcodec2 : isCodec2 profile.codec = true
  · simp only [hcodec2, if_true, Bool.true_or]
  · by_cases hopus : profile.codec.isOpus = true
    · simp only [hcodec2, hopus, if_true, Bool.false_eq_true, if_false, Bool.false_or, Bool.true_and]
    · simp only [hcodec2, hopus, Bool.false_eq_true, if_false, Bool.false_or, Bool.false_and]

theorem setProfile_accepted (opus : OpusBackend) (s : SendLoop) (profile : QualityProfile) :
    (s.setProfile opus profile).2 = opus.accepts profile := accepts_eq opus s.audioEnc profile

theorem setProfile_profile (opus : OpusBackend) (s : SendLoop) (profile : QualityProfile) :
    (s.setProfile opus profile).1.encoder.profile =
      if opus.accepts profile then profile else s.encoder.profile := by
  change (s.encoder.setProfile profile (s.audioEnc.setProfile opus profile).2).profile = _
  rw [accepts_eq]
  cases opus.accepts profile with
  | true => rfl
  | false => rfl

theorem applyEffective_current (h : s.due = false) : s.applyEffective opus = s := by
  rw [applyEffective, h]
  exact if_neg Bool.false_ne_true

theorem applyEffective_taken (h : s.due = true) (haccepts : opus.accepts s.effectiveProfile = true) :
    s.applyEffective opus = { (s.setProfile opus s.effectiveProfile).1 with
      lastApplied := some s.effectiveProfile, switched := none } := by
  rw [applyEffective, h, if_pos rfl]
  have hsnd := (setProfile_accepted opus s s.effectiveProfile).trans haccepts
  generalize s.setProfile opus s.effectiveProfile = r at hsnd
  obtain ⟨s', accepted⟩ := r
  cases hsnd
  rfl

theorem applyEffective_refused (h : s.due = true)
    (haccepts : opus.accepts s.effectiveProfile = false) :
    s.applyEffective opus = (s.setProfile opus s.effectiveProfile).1 := by
  rw [applyEffective, h, if_pos rfl]
  have hsnd := (setProfile_accepted opus s s.effectiveProfile).trans haccepts
  generalize s.setProfile opus s.effectiveProfile = r at hsnd
  obtain ⟨s', accepted⟩ := r
  cases hsnd
  rfl

/-- A profile that is not due has the codec of the one applied last. -/
theorem last_of_not_due (h : s.due = false) :
    ∃ last, s.lastApplied = some last ∧ s.effectiveProfile.codec = last.codec := by
  unfold due at h
  cases hlast : s.lastApplied with
  | none => simp only [hlast, Bool.true_eq_false] at h
  | some last =>
      refine ⟨last, rfl, ?_⟩
      simp only [hlast, Bool.not_eq_false'] at h
      simp only [BEq.beq, Bool.and_eq_true] at h
      exact of_decide_eq_true h.1.1.1.1.1.1.1

theorem effectiveProfile_le {cap : QualityProfile} (h : s.peerMaxQuality = some cap) :
    s.effectiveProfile.codec.bitrateBps ≤ cap.codec.bitrateBps := by
  simp only [effectiveProfile, h]
  split
  · exact UInt32.le_refl _
  · exact UInt32.not_lt.mp ‹_›

theorem effectiveProfile_active (h : ¬ CapsBelow s.peerMaxQuality s.activeQuality) :
    s.effectiveProfile = s.activeQuality := by
  cases hcap : s.peerMaxQuality with
  | none => simp only [effectiveProfile, hcap]
  | some cap =>
      simp only [effectiveProfile, hcap]
      exact if_neg fun hlt => h ⟨cap, hcap, hlt⟩

theorem effectiveProfile_cases : s.effectiveProfile = s.activeQuality ∨
    s.effectiveProfile.codec.bitrateBps < s.activeQuality.codec.bitrateBps := by
  by_cases hcap : CapsBelow s.peerMaxQuality s.activeQuality
  · obtain ⟨cap, hsome, hlt⟩ := hcap
    refine Or.inr ?_
    simp only [effectiveProfile, hsome]
    rw [if_pos hlt]
    exact hlt
  · exact Or.inl (effectiveProfile_active hcap)

/-! ## The invariant -/

/-- What the encoder has is what was switched to last, or what was applied last. -/
structure Remembers (s : SendLoop) : Prop where
  switched : ∀ p, s.switched = some p → s.encoder.profile = p
  applied : s.switched = none → ∀ p, s.lastApplied = some p → s.encoder.profile = p
  picked : (resolveQuality s.quality).isSome → s.switched = none
  last : s.upgraded = false → ∀ p, s.lastApplied = some p →
    p = s.activeQuality ∨ p.codec.bitrateBps < s.activeQuality.codec.bitrateBps

/-- The parts that applying the effective profile leaves. -/
structure SameSlots (s s' : SendLoop) : Prop where
  quality : s'.quality = s.quality
  active : s'.activeQuality = s.activeQuality
  cap : s'.peerMaxQuality = s.peerMaxQuality
  upgraded : s'.upgraded = s.upgraded
  frames : s'.frames = s.frames

theorem applyEffective_sameSlots (opus : OpusBackend) (s : SendLoop) :
    SameSlots s (s.applyEffective opus) := by
  cases hdue : s.due with
  | false =>
      rw [applyEffective_current hdue]
      exact ⟨rfl, rfl, rfl, rfl, rfl⟩
  | true =>
      cases haccepts : opus.accepts s.effectiveProfile with
      | true =>
          rw [applyEffective_taken hdue haccepts]
          exact ⟨rfl, rfl, rfl, rfl, rfl⟩
      | false =>
          rw [applyEffective_refused hdue haccepts]
          exact ⟨rfl, rfl, rfl, rfl, rfl⟩

theorem applyEffective_remembers (h : Remembers s) : Remembers (s.applyEffective opus) := by
  cases hdue : s.due with
  | false =>
      rw [applyEffective_current hdue]
      exact h
  | true =>
      cases haccepts : opus.accepts s.effectiveProfile with
      | true =>
          have hprofile := setProfile_profile opus s s.effectiveProfile
          rw [haccepts, if_pos rfl] at hprofile
          rw [applyEffective_taken hdue haccepts]
          refine ⟨fun p hp => ?_, fun _ p hp => ?_, fun _ => rfl, fun _ p hp => ?_⟩
          · cases hp
          · cases hp
            exact hprofile
          · cases hp
            exact effectiveProfile_cases
      | false =>
          have hprofile := setProfile_profile opus s s.effectiveProfile
          rw [haccepts, if_neg Bool.false_ne_true] at hprofile
          rw [applyEffective_refused hdue haccepts]
          exact ⟨fun p hp => hprofile.trans (h.switched p hp),
            fun hnone p hp => hprofile.trans (h.applied hnone p hp), h.picked, h.last⟩

/-- What is encoded next is not above the cap. -/
theorem applied_capped (h : Remembers s) (hheeds : Heeds opus s) {cap : QualityProfile}
    (hcap : s.peerMaxQuality = some cap) :
    (s.applyEffective opus).encoder.profile.codec.bitrateBps ≤ cap.codec.bitrateBps := by
  have heffective := effectiveProfile_le hcap
  cases hdue : s.due with
  | true =>
      have haccepts := hheeds.accepted hdue (Or.inl (by rw [hcap]; rfl))
      have hprofile := setProfile_profile opus s s.effectiveProfile
      rw [haccepts, if_pos rfl] at hprofile
      rw [applyEffective_taken hdue haccepts]
      exact (congrArg (fun p => p.codec.bitrateBps) hprofile).trans_le heffective
  | false =>
      rw [applyEffective_current hdue]
      cases hswitched : s.switched with
      | some p =>
          rw [h.switched p hswitched]
          exact hheeds.switched hdue cap hcap p hswitched
      | none =>
          obtain ⟨last, hlast, hcodec⟩ := last_of_not_due hdue
          rw [h.applied hswitched last hlast, ← hcodec]
          exact heffective

/-- What is encoded next has the quality that was picked. -/
theorem applied_selected (h : Remembers s) (hheeds : Heeds opus s) {p : QualityProfile}
    (hp : resolveQuality s.quality = some p) (hnone : s.upgraded = false)
    (hcap : ¬ CapsBelow s.peerMaxQuality p) : (s.applyEffective opus).encoder.profile = p := by
  have hactive := hheeds.selected p hp hnone hcap
  have heffective : s.effectiveProfile = p := by
    rw [← hactive] at hcap ⊢
    exact effectiveProfile_active hcap
  cases hdue : s.due with
  | true =>
      have haccepts := hheeds.accepted hdue (Or.inr ⟨by rw [hp]; rfl, hnone⟩)
      have hprofile := setProfile_profile opus s s.effectiveProfile
      rw [haccepts, if_pos rfl] at hprofile
      rw [applyEffective_taken hdue haccepts]
      exact hprofile.trans heffective
  | false =>
      obtain ⟨last, hlast, hcodec⟩ := last_of_not_due hdue
      have hswitched := h.picked (by rw [hp]; rfl)
      rw [applyEffective_current hdue, h.applied hswitched last hlast]
      rcases h.last hnone last hlast with heq | hlt
      · exact heq.trans hactive
      · rw [hactive, ← heffective, hcodec] at hlt
        exact absurd hlt (UInt32.lt_irrefl _)

/-- The frame is put down with the profile the encoder has, which it keeps. -/
theorem encodeFrame_spec (rq : RaptorQ) (opus : OpusBackend) (s : SendLoop) (capture : Capture) :
    ∃ packets, SameSlots { s with frames := ⟨s.encoder.profile, s.peerMaxQuality, s.encoder.blockId,
        s.encoder.frameInBlock, packets⟩ :: s.frames } (s.encodeFrame rq opus capture) ∧
      (s.encodeFrame rq opus capture).encoder.profile = s.encoder.profile ∧
      (s.encodeFrame rq opus capture).switched = s.switched ∧
      (s.encodeFrame rq opus capture).lastApplied = s.lastApplied :=
  ⟨_, ⟨rfl, rfl, rfl, rfl, rfl⟩, (CallEncoder.encodeFrame_keeps _ _ _).1, rfl, rfl⟩

theorem encodeFrame_remembers (h : Remembers s) (capture : Capture) :
    Remembers (s.encodeFrame rq opus capture) := by
  obtain ⟨_, hslots, hprofile, hswitched, hlast⟩ := encodeFrame_spec rq opus s capture
  constructor
  · rw [hswitched, hprofile]
    exact h.switched
  · rw [hswitched, hprofile, hlast]
    exact h.applied
  · rw [hslots.quality, hswitched]
    exact h.picked
  · rw [hslots.upgraded, hslots.active, hlast]
    exact h.last

theorem adaptiveSwitch_picked (h : (resolveQuality s.quality).isSome) :
    s.adaptiveSwitch opus = s := by
  refine if_neg fun hnone => ?_
  rw [Option.isNone_iff_eq_none.mp hnone] at h
  exact Bool.false_ne_true h

/-- On a recommendation the encoder has the profile, or does not take it. -/
theorem adaptiveSwitch_cases (opus : OpusBackend) (h : resolveQuality s.quality = none) :
    s.adaptiveSwitch opus = { s with pendingProfile := profileNoChange } ∨
    ∃ profile, indexToProfile s.pendingProfile = some profile ∧
      let r := { s with pendingProfile := profileNoChange }.setProfile opus profile
      s.adaptiveSwitch opus = if opus.accepts profile then { r.1 with switched := some profile }
        else r.1 := by
  rw [adaptiveSwitch, h, if_pos (by rfl)]
  cases hindex : indexToProfile s.pendingProfile with
  | none => exact Or.inl rfl
  | some profile =>
      refine Or.inr ⟨profile, rfl, ?_⟩
      have hsnd := setProfile_accepted opus { s with pendingProfile := profileNoChange } profile
      dsimp only
      rw [← hsnd]
      generalize { s with pendingProfile := profileNoChange }.setProfile opus profile = r
      obtain ⟨s', accepted⟩ := r
      cases accepted with
      | true => rfl
      | false => rfl

theorem adaptiveSwitch_sameSlots (opus : OpusBackend) (s : SendLoop) :
    SameSlots s (s.adaptiveSwitch opus) := by
  cases hquality : resolveQuality s.quality with
  | some p =>
      rw [adaptiveSwitch_picked (by rw [hquality]; rfl)]
      exact ⟨rfl, rfl, rfl, rfl, rfl⟩
  | none =>
      rcases adaptiveSwitch_cases opus hquality with heq | ⟨profile, _, heq⟩
      · rw [heq]
        exact ⟨rfl, rfl, rfl, rfl, rfl⟩
      · rw [heq]
        split
        · exact ⟨rfl, rfl, rfl, rfl, rfl⟩
        · exact ⟨rfl, rfl, rfl, rfl, rfl⟩

theorem adaptiveSwitch_remembers (h : Remembers s) : Remembers (s.adaptiveSwitch opus) := by
  cases hquality : resolveQuality s.quality with
  | some p =>
      rw [adaptiveSwitch_picked (by rw [hquality]; rfl)]
      exact h
  | none =>
      rcases adaptiveSwitch_cases opus hquality with heq | ⟨profile, _, heq⟩
      · rw [heq]
        exact ⟨h.switched, h.applied, h.picked, h.last⟩
      · have hprofile := setProfile_profile opus { s with pendingProfile := profileNoChange } profile
        rw [heq]
        cases haccepts : opus.accepts profile with
        | true =>
            rw [haccepts] at hprofile
            refine ⟨fun p hp => ?_, fun hnone => ?_, fun hsome => ?_, h.last⟩
            · cases hp
              exact hprofile
            · cases hnone
            · have hpicked : (resolveQuality s.quality).isSome = true := hsome
              rw [hquality] at hpicked
              exact absurd hpicked Bool.false_ne_true
        | false =>
            rw [haccepts] at hprofile
            exact ⟨fun p hp => hprofile.trans (h.switched p hp),
              fun hnone p hp => hprofile.trans (h.applied hnone p hp), h.picked, h.last⟩

theorem attachReport_sameSlots (report : Option QualityReport) :
    SameSlots s (s.attachReport report) := by
  cases report with
  | none => exact ⟨rfl, rfl, rfl, rfl, rfl⟩
  | some r => exact ⟨rfl, rfl, rfl, rfl, rfl⟩

theorem attachReport_remembers (h : Remembers s) (report : Option QualityReport) :
    Remembers (s.attachReport report) := by
  cases report with
  | none => exact h
  | some r => exact ⟨h.switched, h.applied, h.picked, h.last⟩

theorem SameSlots.trans {s' s'' : SendLoop} (h : SameSlots s s') (h' : SameSlots s' s'') :
    SameSlots s s'' :=
  ⟨h'.quality.trans h.quality, h'.active.trans h.active, h'.cap.trans h.cap,
    h'.upgraded.trans h.upgraded, h'.frames.trans h.frames⟩

theorem SameSlots.honoured {s' : SendLoop} (h : SameSlots s s') (hs : Honoured s) : Honoured s' := by
  constructor
  · rw [h.frames]
    exact hs.capped
  · rw [h.frames, h.quality, h.upgraded]
    exact hs.selected

/-! ## Every run -/

theorem start_remembers (quality : String) (activeQuality : QualityProfile)
    (peerMaxQuality : Option QualityProfile) :
    Remembers (start quality activeQuality peerMaxQuality) := by
  constructor
  · exact fun p hp => nomatch hp
  · exact fun _ p hp => nomatch hp
  · exact fun _ => rfl
  · exact fun _ p hp => nomatch hp

theorem sendFrame_remembers (h : Remembers s) (capture : Capture) :
    Remembers (s.sendFrame rq opus capture) := by
  unfold sendFrame
  split
  · exact h
  · split
    · exact ⟨h.switched, h.applied, h.picked, h.last⟩
    · apply attachReport_remembers
      apply adaptiveSwitch_remembers
      exact encodeFrame_remembers h capture

theorem step_remembers (h : Remembers s) (e : SendEvent) : Remembers (s.step rq opus e) := by
  cases e with
  | upgrade profile => exact ⟨h.switched, h.applied, h.picked, fun hnone => nomatch hnone⟩
  | qualityCapability maxProfile => exact ⟨h.switched, h.applied, h.picked, h.last⟩
  | recommend profile => exact ⟨h.switched, h.applied, h.picked, h.last⟩
  | iterate capture =>
      rw [step]
      split
      · exact h
      · exact sendFrame_remembers (applyEffective_remembers h) capture

/-- A frame keeps the promises if the encoder has a profile that does. -/
theorem sendFrame_honoured (h : Honoured s) (capture : Capture)
    (hcapped : ∀ cap, s.peerMaxQuality = some cap →
      s.encoder.profile.codec.bitrateBps ≤ cap.codec.bitrateBps)
    (hselected : ∀ p, resolveQuality s.quality = some p → s.upgraded = false →
      ¬ CapsBelow s.peerMaxQuality p → s.encoder.profile = p) :
    Honoured (s.sendFrame rq opus capture) := by
  unfold sendFrame
  split
  · exact h
  · split
    · exact ⟨h.capped, h.selected⟩
    · obtain ⟨packets, hslots, _⟩ := encodeFrame_spec rq opus s capture
      have hrest := (adaptiveSwitch_sameSlots opus (s.encodeFrame rq opus capture)).trans
        (attachReport_sameSlots capture.report)
      refine (hslots.trans hrest).honoured ?_
      constructor
      · intro f hf
        rcases List.mem_cons.mp hf with rfl | hold
        · exact fun _ => hcapped
        · exact h.capped f hold
      · intro p hp hnone f hf
        rcases List.mem_cons.mp hf with rfl | hold
        · exact fun _ => hselected p hp hnone
        · exact h.selected p hp hnone f hold

theorem step_honoured (h : Remembers s) (hs : Honoured s) (e : SendEvent) (hok : HeedsAt opus s e) :
    Honoured (s.step rq opus e) := by
  cases e with
  | upgrade profile => exact ⟨hs.capped, fun _ _ hnone => nomatch hnone⟩
  | qualityCapability maxProfile => exact ⟨hs.capped, hs.selected⟩
  | recommend profile => exact ⟨hs.capped, hs.selected⟩
  | iterate capture =>
      rw [step]
      split
      · exact hs
      · have hslots := applyEffective_sameSlots opus s
        refine sendFrame_honoured (hslots.honoured hs) capture ?_ ?_
        · rw [hslots.cap]
          exact fun cap hcap => applied_capped h hok hcap
        · rw [hslots.quality, hslots.upgraded, hslots.cap]
          exact fun p hp hnone hcap => applied_selected h hok hp hnone hcap

/-- The choice of the user and the cap of the peer are honoured throughout the runs in
which an effective profile is one that the encoder takes, the controller switches above no
cap, and the active quality is the one picked. -/
theorem choices_honoured (rq : RaptorQ) (opus : OpusBackend) (quality : String)
    (activeQuality : QualityProfile) (peerMaxQuality : Option QualityProfile)
    (events : List SendEvent)
    (h : EachStep (step rq opus) (HeedsAt opus) (start quality activeQuality peerMaxQuality) events) :
    Throughout (step rq opus) Honoured (start quality activeQuality peerMaxQuality) events := by
  have hall := throughout_of_eachStep (P := fun s => Remembers s ∧ Honoured s)
    (fun s e hs hok => ⟨step_remembers hs.1 e, step_honoured hs.1 hs.2 e hok⟩)
    ⟨start_remembers quality activeQuality peerMaxQuality, ?_⟩ h
  · exact hall.mono fun s hs => hs.2
  · exact ⟨fun f hf => absurd hf List.not_mem_nil, fun _ _ _ f hf => absurd hf List.not_mem_nil⟩

/-- libopus with the frames it is documented to encode. -/
def documentedOpus : OpusBackend where
  takes codec := codec.isOpus
  encodes samples := samples ∈ [240, 480, 960, 1920]

def spoken (samples : ℕ) : SendEvent := .iterate ⟨samples, false, [7], none⟩

theorem capped_call_honoured : Throughout (step .parity documentedOpus) Honoured
    (start "good" .good (some .degraded)) [spoken 1920] := by
  apply choices_honoured
  refine ⟨⟨fun _ _ => rfl, fun hdue => ?_, fun p hp _ _ => ?_⟩, trivial⟩
  · exact absurd hdue (by decide)
  · exact Option.some.inj hp

/-- The codecs of the frames and of the caps, and whether the frames are sent, the latest
first. -/
def codecs (s : SendLoop) : List (CodecId × Option CodecId × Bool) :=
  s.frames.map fun f => (f.profile.codec, f.cap.map (·.codec), f.packets.isSome)

theorem Honoured.codecs_capped (h : Honoured s) {codec cap : CodecId}
    (hmem : (codec, some cap, true) ∈ s.codecs) : codec.bitrateBps ≤ cap.bitrateBps := by
  obtain ⟨f, hf, heq⟩ := List.mem_map.mp hmem
  obtain ⟨rfl, hcap, hsent⟩ : f.profile.codec = codec ∧ f.cap.map (·.codec) = some cap ∧
      f.packets.isSome = true := by
    simpa only [Prod.mk.injEq] using heq
  obtain ⟨c, hc, rfl⟩ := Option.map_eq_some_iff.mp hcap
  exact h.capped f hf hsent c hc

theorem Honoured.codecs_selected (h : Honoured s) {p : QualityProfile}
    (hp : resolveQuality s.quality = some p) (hnone : s.upgraded = false) {codec : CodecId}
    (hmem : (codec, none, true) ∈ s.codecs) : codec = p.codec := by
  obtain ⟨f, hf, heq⟩ := List.mem_map.mp hmem
  obtain ⟨rfl, hcap, hsent⟩ : f.profile.codec = codec ∧ f.cap.map (·.codec) = none ∧
      f.packets.isSome = true := by
    simpa only [Prod.mk.injEq] using heq
  refine congrArg QualityProfile.codec (h.selected p hp hnone f hf hsent ?_)
  rintro ⟨c, hc, _⟩
  rw [hc] at hcap
  cases hcap

/-- A user who has picked a studio quality sends with the default one, and a
recommendation of the relay goes above the cap. -/
theorem choices_overridden :
    ¬ Throughout (step .parity documentedOpus) Honoured (start "studio-64k" .good none)
      [spoken 960] ∧
    ¬ Throughout (step .parity documentedOpus) Honoured (start "auto" .good (some .good))
      [.recommend .studio64k, spoken 960, spoken 960] := by
  constructor
  · intro h
    have hcodec : (CodecId.opus24k, none, true) ∈ (run (step .parity documentedOpus)
        (start "studio-64k" .good none) [spoken 960]).codecs := by decide +kernel
    have heq := h.last.codecs_selected (p := .studio64k) rfl rfl hcodec
    cases heq
  · intro h
    have hcodec : (CodecId.opus64k, some .opus24k, true) ∈ (run (step .parity documentedOpus)
        (start "auto" .good (some .good)) [.recommend .studio64k, spoken 960, spoken 960]).codecs := by
      decide +kernel
    exact absurd (h.last.codecs_capped hcodec) (by decide)

end SendLoop
end Wzp.Desktop
