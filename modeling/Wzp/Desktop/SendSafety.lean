import Wzp.Desktop.SendLoop

/-!
# Profiles from the network

The profile of a confirmation or of a capability goes into the send loop as it came. It
does no harm if its frames fit the buffer and the codec, and its blocks fit their numbers.
-/
namespace Wzp.Desktop
open Bytes Client Proto Fec Runs
open Codec (isCodec2)

/-- libopus takes the bit rates of the profiles and encodes frames of 5, 10, 20 and 40 ms. -/
structure OpusBackend.Total (opus : OpusBackend) : Prop where
  takes : ∀ codec, codec.isOpus = true → opus.takes codec = true
  encodes : ∀ samples ∈ [240, 480, 960, 1920], opus.encodes samples = true

/-- The frames are long enough for the codec and not too long for the buffer, and a block
with its repair symbols is not more than 256. -/
def Codec2Fits (p : QualityProfile) : Prop :=
  AdaptiveEncoder.codec2Samples p.codec ≤ p.frameDurationMs.toNat * 48 / 6 ∧
    p.frameDurationMs.toNat * 48 ≤ sendBuffer ∧ 1 ≤ p.framesPerBlock.toNat ∧
    p.framesPerBlock.toNat +
      RaptorQFecEncoder.numRepair p.framesPerBlock.toNat p.fecRatio ≤ 256

def OpusFits (p : QualityProfile) : Prop :=
  p.codec.isOpus = true ∧ p.frameDurationMs.toNat * 48 ∈ [240, 480, 960, 1920]

def Fits (p : QualityProfile) : Prop := if isCodec2 p.codec then Codec2Fits p else OpusFits p

instance (p : QualityProfile) : Decidable (Codec2Fits p) := inferInstanceAs (Decidable (_ ∧ _))

instance (p : QualityProfile) : Decidable (OpusFits p) := inferInstanceAs (Decidable (_ ∧ _))

instance (p : QualityProfile) : Decidable (Fits p) := inferInstanceAs (Decidable (ite _ _ _))

/-- The frame came out as packets, and the number of each in its block is the one in its
label. -/
def SendRecord.Numbered (f : SendRecord) : Prop :=
  ∃ packets, f.packets = some packets ∧
    (f.profile.codec.isOpus = false → f.frameInBlock.toNat + 1 < 256 ∧
      ∀ i (hi : i < packets.length), packets[i].header.fecBlock.toNat =
        f.blockId.toNat + (f.frameInBlock.toNat + i) * 256)

theorem Fits.accepts {opus : OpusBackend} (htotal : opus.Total) {p : QualityProfile} (h : Fits p) :
    opus.accepts p = true := by
  unfold Fits at h
  unfold OpusBackend.accepts
  by_cases hcodec2 : isCodec2 p.codec = true
  · rw [hcodec2, Bool.true_or]
  · rw [if_neg hcodec2] at h
    rw [h.1, htotal.takes p.codec h.1, Bool.and_self, Bool.or_true]

theorem Fits.codec2 {p : QualityProfile} (h : Fits p) (hopus : p.codec.isOpus = false) :
    Codec2Fits p := by
  unfold Fits at h
  by_cases hcodec2 : isCodec2 p.codec = true
  · rw [if_pos hcodec2] at h
    exact h
  · rw [if_neg hcodec2] at h
    exact absurd (h.1.symm.trans hopus) (by decide)

theorem Fits.room {p : QualityProfile} (h : Fits p) :
    p.frameDurationMs.toNat * 48 ≤ sendBuffer := by
  unfold Fits at h
  by_cases hcodec2 : isCodec2 p.codec = true
  · rw [if_pos hcodec2] at h
    exact h.2.1
  · rw [if_neg hcodec2] at h
    have hmem := h.2
    unfold sendBuffer
    simp only [List.mem_cons, List.not_mem_nil, or_false] at hmem
    omega

namespace SendLoop

/-- No slice was out of range, every frame was encoded, and no symbol number was cut. -/
structure Unbroken (s : SendLoop) : Prop where
  inRange : s.panicked = false
  numbered : ∀ f ∈ s.frames, f.Numbered

/-- A profile that has to be applied fits, or is of a codec that the encoder does not take
while Opus has the frame duration of the profile that stays. -/
def Harmless (s : SendLoop) : Prop :=
  s.due = true → Fits s.effectiveProfile ∨
    (isCodec2 s.effectiveProfile.codec = false ∧ s.effectiveProfile.codec.isOpus = false ∧
      s.audioEnc.opusFrameMs = s.encoder.profile.frameDurationMs)

def HarmlessAt (s : SendLoop) : SendEvent → Prop
  | .iterate _ => Harmless s
  | _ => True

/-! ## The invariant -/

/-- An encoder as a sender that has sent nothing yet. -/
def sending (enc : CallEncoder) : Sending := ⟨enc, enc.blockId.toNat, 0, []⟩

theorem aligned_sending {s : Sending} (h : s.Aligned) : (sending s.enc).Aligned :=
  ⟨UInt8.ofNat_toNat.symm, h.symbols, h.perBlock, h.noKeyframe, h.inBlock,
    fun _ hp => absurd hp List.not_mem_nil⟩

/-- The encoder is ready for frames of the length the loop reads. -/
structure Ready (s : SendLoop) : Prop where
  aligned : (sending s.encoder).Aligned
  speaks : s.encoder.suppressionEnabled = false
  samples : s.frameSamples = s.encoder.profile.frameDurationMs.toNat * 48
  room : s.frameSamples ≤ sendBuffer
  block : s.encoder.profile.codec.isOpus = false → 1 ≤ s.encoder.profile.framesPerBlock.toNat ∧
    s.encoder.profile.framesPerBlock.toNat +
      RaptorQFecEncoder.numRepair s.encoder.profile.framesPerBlock.toNat
        s.encoder.profile.fecRatio ≤ 256
  opusFrame : s.audioEnc.opusFrameMs.toNat * 48 ∈ [240, 480, 960, 1920]
  codec2Frame : isCodec2 s.audioEnc.active = true →
    AdaptiveEncoder.codec2Samples s.audioEnc.codec2 ≤ s.frameSamples / 6
  opusActive : isCodec2 s.audioEnc.active = false →
    s.audioEnc.opusFrameMs = s.encoder.profile.frameDurationMs

variable {rq : RaptorQ} {opus : OpusBackend} {s : SendLoop}

theorem setProfile_aligned (hrq : rq.Documented) {enc : CallEncoder} (h : (sending enc).Aligned)
    (profile : QualityProfile) (accepted : Bool) :
    (sending (enc.setProfile profile accepted)).Aligned :=
  aligned_sending (Sending.simulates_step hrq h (.setProfile profile accepted)).1

/-- A profile that fits leaves the encoder ready. -/
theorem setProfile_ready (hrq : rq.Documented) (htotal : opus.Total) (h : Ready s)
    {profile : QualityProfile} (hfits : Fits profile) : Ready (s.setProfile opus profile).1 := by
  have haccepts := (accepts_eq opus s.audioEnc profile).trans (hfits.accepts htotal)
  have haligned := setProfile_aligned hrq h.aligned profile true
  have hroom := hfits.room
  unfold Fits at hfits
  by_cases hcodec2 : isCodec2 profile.codec = true
  · rw [if_pos hcodec2] at hfits
    have hset : s.audioEnc.setProfile opus profile =
        ({ s.audioEnc with active := profile.codec, codec2 := profile.codec }, true) := if_pos hcodec2
    simp only [setProfile, hset, if_true]
    exact ⟨haligned, h.speaks, rfl, hroom, fun _ => hfits.2.2, h.opusFrame, fun _ => hfits.1,
      fun hopus => absurd (hcodec2.symm.trans hopus) Bool.true_eq_false.mp⟩
  · rw [if_neg hcodec2] at hfits
    have hset : s.audioEnc.setProfile opus profile =
        ({ s.audioEnc with active := profile.codec, opusFrameMs := profile.frameDurationMs },
          opus.takes profile.codec) := by
      rw [AdaptiveEncoder.setProfile, if_neg hcodec2, if_pos hfits.1]
    rw [hset] at haccepts
    simp only [setProfile, hset, haccepts, if_true]
    exact ⟨haligned, h.speaks, rfl, hroom, fun hopus => absurd (hfits.1.symm.trans hopus) (by decide),
      hfits.2, fun hactive => absurd hactive hcodec2, fun _ => rfl⟩

/-- A profile of another codec changes only which encoder is active. -/
theorem setProfile_other_ready (h : Ready s) {profile : QualityProfile}
    (hcodec2 : isCodec2 profile.codec = false) (hopus : profile.codec.isOpus = false)
    (hframe : s.audioEnc.opusFrameMs = s.encoder.profile.frameDurationMs) :
    Ready (s.setProfile opus profile).1 := by
  have hset : s.audioEnc.setProfile opus profile =
      ({ s.audioEnc with active := profile.codec }, false) := by
    simp only [AdaptiveEncoder.setProfile, hcodec2, hopus, Bool.false_eq_true, if_false]
  simp only [setProfile, hset, Bool.false_eq_true, if_false]
  exact ⟨h.aligned, h.speaks, h.samples, h.room, h.block, h.opusFrame,
    fun hactive => absurd (hcodec2.symm.trans hactive) (by decide), fun _ => hframe⟩

theorem other_refused {profile : QualityProfile} (hcodec2 : isCodec2 profile.codec = false)
    (hopus : profile.codec.isOpus = false) : opus.accepts profile = false := by
  rw [OpusBackend.accepts, hcodec2, hopus, Bool.false_and, Bool.or_false]

theorem applyEffective_ready (hrq : rq.Documented) (htotal : opus.Total) (h : Ready s)
    (hok : Harmless s) : Ready (s.applyEffective opus) := by
  cases hdue : s.due with
  | false =>
      rw [applyEffective_current hdue]
      exact h
  | true =>
      rcases hok hdue with hfits | ⟨hcodec2, hopus, hframe⟩
      · have hready := setProfile_ready hrq htotal h hfits
        rw [applyEffective_taken hdue (hfits.accepts htotal)]
        exact ⟨hready.aligned, hready.speaks, hready.samples, hready.room, hready.block,
          hready.opusFrame, hready.codec2Frame, hready.opusActive⟩
      · rw [applyEffective_refused hdue (other_refused hcodec2 hopus)]
        exact setProfile_other_ready h hcodec2 hopus hframe

theorem applyEffective_unbroken (h : Unbroken s) : Unbroken (s.applyEffective opus) := by
  have hframes := (applyEffective_sameSlots opus s).frames
  refine ⟨?_, fun f hf => h.numbered f (hframes ▸ hf)⟩
  cases hdue : s.due with
  | false =>
      rw [applyEffective_current hdue]
      exact h.inRange
  | true =>
      cases haccepts : opus.accepts s.effectiveProfile with
      | true =>
          rw [applyEffective_taken hdue haccepts]
          exact h.inRange
      | false =>
          rw [applyEffective_refused hdue haccepts]
          exact h.inRange

/-! ## One frame -/

/-- The codec that is active encodes frames of the length that is read. -/
theorem Ready.encodes (h : Ready s) (htotal : opus.Total) :
    s.audioEnc.encodes opus s.frameSamples = true := by
  unfold AdaptiveEncoder.encodes
  by_cases hactive : isCodec2 s.audioEnc.active = true
  · rw [if_pos hactive]
    exact decide_eq_true (h.codec2Frame hactive)
  · have hframe := h.opusActive (Bool.not_eq_true _ ▸ hactive)
    have hsamples : s.frameSamples = s.audioEnc.opusFrameMs.toNat * 48 := by
      rw [h.samples, hframe]
    rw [if_neg hactive, hsamples, htotal.encodes _ h.opusFrame, Bool.and_true]
    refine decide_eq_true ?_
    omega

theorem encoded_aligned (hrq : rq.Documented) {enc : CallEncoder} (h : (sending enc).Aligned)
    (frame : CapturedFrame) : (sending (enc.encodeFrame rq frame).1).Aligned :=
  aligned_sending (Sending.simulates_step hrq h (.encodeFrame frame)).1

/-- Where a label puts a symbol whose number fits. -/
theorem label_number {blockId : UInt8} {k : ℕ} (h : k < 256) :
    (fecLabel blockId (UInt16.ofNat k)).toNat = blockId.toNat + k * 256 := by
  rw [toNat_fecLabel, UInt16.toNat_ofNat', Nat.mod_eq_of_lt (by omega : k < 2 ^ 16),
    Nat.mod_eq_of_lt h]

/-- A frame of a block that has room comes out with its repair symbols, all numbered. -/
theorem encoded_numbered (hrq : rq.Documented) (h : Ready s) (silent : Bool) (encoded : Buf)
    (cap : Option QualityProfile) : SendRecord.Numbered ⟨s.encoder.profile, cap, s.encoder.blockId,
      s.encoder.frameInBlock, (s.encoder.encodeFrame rq ⟨silent, some encoded⟩).2⟩ := by
  have hspoken : (s.encoder.suppressionEnabled && silent) = false := by
    rw [h.speaks, Bool.false_and]
  cases hopus : s.encoder.profile.codec.isOpus with
  | true =>
      have hencode := @CallEncoder.encodeFrame_opus rq s.encoder ⟨silent, some encoded⟩ encoded
        hspoken rfl hopus
      rw [hencode]
      exact ⟨_, rfl, fun hno => absurd (hopus.symm.trans hno) (by decide)⟩
  | false =>
      obtain ⟨hpos, hfit⟩ := h.block hopus
      have hroom : s.encoder.frameInBlock < s.encoder.profile.framesPerBlock := by
        rcases h.aligned.inBlock with hzero | hlt
        · rw [show s.encoder.frameInBlock = 0 from hzero, UInt8.lt_iff_toNat_lt]
          exact hpos
        · exact hlt
      have hf : (sending s.encoder).SendsSymbol ⟨silent, some encoded⟩ :=
        ⟨hspoken, rfl, hopus, hroom⟩
      have hencode := hf.encodeFrame rq rfl h.aligned
      have hlt := UInt8.lt_iff_toNat_lt.mp hroom
      have hmax : s.encoder.profile.framesPerBlock.toNat < 256 :=
        s.encoder.profile.framesPerBlock.toNat_lt
      have hnext : s.encoder.frameInBlock.toNat + 1 < 256 := by omega
      change s.encoder.encodeFrame rq _ = _ at hencode
      rw [hencode]
      split
      · rename_i hlast
        have hfull : s.encoder.profile.framesPerBlock.toNat = s.encoder.frameInBlock.toNat + 1 := by
          have hle := UInt8.le_iff_toNat_le.mp hlast
          have htoNat := hf.toNat_next.1
          change (s.encoder.frameInBlock + 1).toNat = s.encoder.frameInBlock.toNat + 1 at htoNat
          change _ ≤ (s.encoder.frameInBlock + 1).toNat at hle
          change s.encoder.profile.framesPerBlock.toNat ≤ _ at hle
          omega
        obtain ⟨data, hrepair⟩ := h.aligned.closing_packets hrq encoded
        have hlabels := hf.closing_labels encoded hrepair
        refine ⟨_, rfl, fun _ => ⟨hnext, fun i hi => ?_⟩⟩
        have hcount : i < RaptorQFecEncoder.numRepair s.encoder.profile.framesPerBlock.toNat
            s.encoder.profile.fecRatio + 1 := by
          have hlen := congrArg List.length hrepair
          rw [List.length_map, List.length_range] at hlen
          have hi' := List.length_cons ▸ hi
          rw [hlen] at hi'
          rw [hfull]
          exact hi'
        have hfits : s.encoder.frameInBlock.toNat + i < 256 := by omega
        exact (congrArg UInt16.toNat (hlabels i hi).2).trans (label_number hfits)
      · refine ⟨_, rfl, fun _ => ⟨hnext, fun i hi => ?_⟩⟩
        obtain rfl : i = 0 := Nat.lt_one_iff.mp hi
        have hfits : s.encoder.frameInBlock.toNat + 0 < 256 := by omega
        exact (congrArg UInt16.toNat (hf.source_label encoded)).trans (label_number hfits)

theorem encodeFrame_ready (hrq : rq.Documented) (h : Ready s) (capture : Capture) :
    Ready (s.encodeFrame rq opus capture) := by
  unfold SendLoop.encodeFrame
  dsimp only
  generalize (if s.audioEnc.encodes opus s.frameSamples then some capture.encoded else none) = encoded
  have haligned := encoded_aligned hrq h.aligned ⟨capture.silent, encoded⟩
  have hkeeps := CallEncoder.encodeFrame_keeps rq s.encoder ⟨capture.silent, encoded⟩
  generalize (s.encoder.encodeFrame rq ⟨capture.silent, encoded⟩).1 = enc at haligned hkeeps
  obtain ⟨hprofile, hsuppression⟩ := hkeeps
  constructor
  · exact haligned
  · exact hsuppression.trans h.speaks
  · rw [hprofile]
    exact h.samples
  · exact h.room
  · rw [hprofile]
    exact h.block
  · exact h.opusFrame
  · exact h.codec2Frame
  · rw [hprofile]
    exact h.opusActive

theorem encodeFrame_unbroken (hrq : rq.Documented) (htotal : opus.Total) (h : Ready s)
    (hs : Unbroken s) (capture : Capture) : Unbroken (s.encodeFrame rq opus capture) := by
  refine ⟨hs.inRange, fun f hf => ?_⟩
  rcases List.mem_cons.mp hf with rfl | hold
  · rw [h.encodes htotal, if_pos rfl]
    exact encoded_numbered hrq h capture.silent capture.encoded s.peerMaxQuality
  · exact hs.numbered f hold

/-! ## Every run -/

theorem indexToProfile_fits {index : UInt8} {profile : QualityProfile}
    (h : indexToProfile index = some profile) : Fits profile := by
  unfold indexToProfile at h
  split at h
  all_goals cases h
  all_goals decide +kernel

theorem resolveQuality_fits {quality : String} {profile : QualityProfile}
    (h : resolveQuality quality = some profile) :
    Fits profile ∧ profile.frameDurationMs.toNat * 48 ∈ [960, 1920] := by
  unfold resolveQuality at h
  split at h
  all_goals cases h
  all_goals decide +kernel

theorem buildCallConfig_fits (quality : String) :
    Fits (buildCallConfig quality).profile ∧
      (buildCallConfig quality).profile.frameDurationMs.toNat * 48 ∈ [960, 1920] := by
  unfold buildCallConfig
  cases hquality : resolveQuality quality with
  | none => decide +kernel
  | some profile => exact resolveQuality_fits hquality

theorem adaptiveSwitch_ready (hrq : rq.Documented) (htotal : opus.Total) (h : Ready s) :
    Ready (s.adaptiveSwitch opus) := by
  have hslot : Ready { s with pendingProfile := profileNoChange } :=
    ⟨h.aligned, h.speaks, h.samples, h.room, h.block, h.opusFrame, h.codec2Frame, h.opusActive⟩
  cases hquality : resolveQuality s.quality with
  | some p =>
      rw [adaptiveSwitch_picked (by rw [hquality]; rfl)]
      exact h
  | none =>
      rcases adaptiveSwitch_cases opus hquality with heq | ⟨profile, hindex, heq⟩
      · rw [heq]
        exact hslot
      · have hfits := indexToProfile_fits hindex
        have hready := setProfile_ready hrq htotal hslot hfits
        rw [heq, hfits.accepts htotal, if_pos rfl]
        exact ⟨hready.aligned, hready.speaks, hready.samples, hready.room, hready.block,
          hready.opusFrame, hready.codec2Frame, hready.opusActive⟩

theorem adaptiveSwitch_unbroken (h : Unbroken s) : Unbroken (s.adaptiveSwitch opus) := by
  have hframes := (adaptiveSwitch_sameSlots opus s).frames
  refine ⟨?_, fun f hf => h.numbered f (hframes ▸ hf)⟩
  cases hquality : resolveQuality s.quality with
  | some p =>
      rw [adaptiveSwitch_picked (by rw [hquality]; rfl)]
      exact h.inRange
  | none =>
      rcases adaptiveSwitch_cases opus hquality with heq | ⟨profile, _, heq⟩
      · rw [heq]
        exact h.inRange
      · rw [heq]
        split
        · exact h.inRange
        · exact h.inRange

theorem attachReport_ready (hrq : rq.Documented) (h : Ready s) (report : Option QualityReport) :
    Ready (s.attachReport report) := by
  cases report with
  | none => exact h
  | some r =>
      have haligned := (Sending.simulates_step hrq h.aligned (.setPendingQualityReport r)).1
      exact ⟨aligned_sending haligned, h.speaks, h.samples, h.room, h.block, h.opusFrame,
        h.codec2Frame, h.opusActive⟩

theorem attachReport_unbroken (h : Unbroken s) (report : Option QualityReport) :
    Unbroken (s.attachReport report) := by
  cases report with
  | none => exact h
  | some r => exact ⟨h.inRange, h.numbered⟩

/-- A frame is read, encoded and numbered, and the encoder is ready for the next. -/
theorem sendFrame_safe (hrq : rq.Documented) (htotal : opus.Total) (h : Ready s) (hs : Unbroken s)
    (capture : Capture) :
    Ready (s.sendFrame rq opus capture) ∧ Unbroken (s.sendFrame rq opus capture) := by
  unfold sendFrame
  split
  · exact ⟨h, hs⟩
  · rw [if_neg (Nat.not_lt.mpr h.room)]
    constructor
    · apply attachReport_ready hrq
      apply adaptiveSwitch_ready hrq htotal
      exact encodeFrame_ready hrq h capture
    · apply attachReport_unbroken
      apply adaptiveSwitch_unbroken
      exact encodeFrame_unbroken hrq htotal h hs capture

theorem step_safe (hrq : rq.Documented) (htotal : opus.Total) (h : Ready s) (hs : Unbroken s)
    (e : SendEvent) (hok : HarmlessAt s e) :
    Ready (s.step rq opus e) ∧ Unbroken (s.step rq opus e) := by
  cases e with
  | upgrade profile =>
      exact ⟨⟨h.aligned, h.speaks, h.samples, h.room, h.block, h.opusFrame, h.codec2Frame,
        h.opusActive⟩, ⟨hs.inRange, hs.numbered⟩⟩
  | qualityCapability maxProfile =>
      exact ⟨⟨h.aligned, h.speaks, h.samples, h.room, h.block, h.opusFrame, h.codec2Frame,
        h.opusActive⟩, ⟨hs.inRange, hs.numbered⟩⟩
  | recommend profile =>
      exact ⟨⟨h.aligned, h.speaks, h.samples, h.room, h.block, h.opusFrame, h.codec2Frame,
        h.opusActive⟩, ⟨hs.inRange, hs.numbered⟩⟩
  | iterate capture =>
      rw [step, hs.inRange]
      exact sendFrame_safe hrq htotal (applyEffective_ready hrq htotal h hok)
        (applyEffective_unbroken hs) capture

theorem start_ready (quality : String) (activeQuality : QualityProfile)
    (peerMaxQuality : Option QualityProfile) :
    Ready (start quality activeQuality peerMaxQuality) := by
  obtain ⟨hfits, hframe⟩ := buildCallConfig_fits quality
  have hroom := hfits.room
  constructor
  · exact aligned_sending (Sending.start_aligned (buildCallConfig quality))
  · change (buildCallConfig quality).suppressionEnabled = false
    unfold buildCallConfig
    split
    · rfl
    · rfl
  · rfl
  · exact hroom
  · exact fun hopus => (hfits.codec2 hopus).2.2
  · simp only [List.mem_cons, List.not_mem_nil, or_false] at hframe ⊢
    exact Or.inr (Or.inr hframe)
  · intro hcodec2
    have hset : (AdaptiveEncoder.new (buildCallConfig quality).profile).codec2 =
        (buildCallConfig quality).profile.codec := if_pos hcodec2
    change AdaptiveEncoder.codec2Samples
      (AdaptiveEncoder.new (buildCallConfig quality).profile).codec2 ≤ _
    rw [hset]
    exact (hfits.codec2 (Codec.not_opus_of_codec2 hcodec2)).1
  · exact fun _ => rfl

/-- Nothing breaks throughout the runs in which every profile that has to be applied is
harmless. -/
theorem unbroken_of_harmless (hrq : rq.Documented) (htotal : opus.Total) (quality : String)
    (activeQuality : QualityProfile) (peerMaxQuality : Option QualityProfile)
    (events : List SendEvent)
    (h : EachStep (step rq opus) HarmlessAt (start quality activeQuality peerMaxQuality) events) :
    Throughout (step rq opus) Unbroken (start quality activeQuality peerMaxQuality) events := by
  have hall := throughout_of_eachStep (P := fun s => Ready s ∧ Unbroken s)
    (fun s e hs hok => step_safe hrq htotal hs.1 hs.2 e hok)
    ⟨start_ready quality activeQuality peerMaxQuality, rfl,
      fun f hf => absurd hf List.not_mem_nil⟩ h
  exact hall.mono fun s hs => hs.2

theorem documentedOpus_total : documentedOpus.Total :=
  ⟨fun _ h => h, fun _ h => decide_eq_true h⟩

theorem codec2_upgrade_unbroken : Throughout (step .parity documentedOpus) Unbroken
    (start "auto" .good none) [.upgrade .catastrophic, spoken 1920] := by
  refine unbroken_of_harmless RaptorQ.parity_documented documentedOpus_total _ _ _ _ ?_
  exact ⟨trivial, fun _ => Or.inl (by decide +kernel), trivial⟩

theorem Unbroken.none_notMem (h : Unbroken s) :
    none ∉ s.frames.map fun f => f.packets.map List.length := by
  intro hmem
  obtain ⟨f, hf, heq⟩ := List.mem_map.mp hmem
  obtain ⟨packets, hpackets, _⟩ := h.numbered f hf
  rw [hpackets] at heq
  cases heq

/-- A block's frames and repair symbols have numbers. -/
theorem Unbroken.length_le (h : Unbroken s) {n k : ℕ}
    (hmem : (false, n, some k) ∈ s.frames.map fun f =>
      (f.profile.codec.isOpus, f.frameInBlock.toNat, f.packets.map List.length)) : n + k ≤ 256 := by
  obtain ⟨f, hf, heq⟩ := List.mem_map.mp hmem
  obtain ⟨hopus, rfl, hlen⟩ : f.profile.codec.isOpus = false ∧ f.frameInBlock.toNat = n ∧
      f.packets.map List.length = some k := by
    simpa only [Prod.mk.injEq] using heq
  obtain ⟨packets, hpackets, hnumbered⟩ := h.numbered f hf
  obtain ⟨hnext, hlabel⟩ := hnumbered hopus
  rw [hpackets] at hlen
  obtain rfl := Option.some.inj hlen
  cases hcount : packets.length with
  | zero => omega
  | succ k =>
      have hk : k < packets.length := by omega
      have hlast := hlabel k hk
      have hlt : packets[k].header.fecBlock.toNat < 65536 := packets[k].header.fecBlock.toNat_lt
      omega

/-- A frame of 60 ms does not fit the buffer, a block of no frames takes none, and the
number of the 256th repair symbol is cut. -/
theorem network_profile_breaks :
    (¬ Throughout (step .parity documentedOpus) Unbroken (start "auto" .good none)
      [.upgrade { QualityProfile.good with frameDurationMs := 60 }, spoken 2880]) ∧
    (¬ Throughout (step .parity documentedOpus) Unbroken (start "auto" .good none)
      [.qualityCapability { codec2Profile3200 with framesPerBlock := 0 }, spoken 960]) ∧
    ¬ Throughout (step .parity documentedOpus) Unbroken (start "auto" .good none)
      [.upgrade { codec2Profile3200 with framesPerBlock := 1, fecRatio := 256 }, spoken 960] := by
  refine ⟨fun h => ?_, fun h => ?_, fun h => ?_⟩
  · have hrange := h.last.inRange
    revert hrange
    decide +kernel
  · exact h.last.none_notMem (by decide +kernel)
  · have hlen := h.last.length_le (n := 0) (k := 257) (by decide +kernel)
    omega

end SendLoop
end Wzp.Desktop
