import Wzp.Client.FecLabels

/-!
# The packets of speech

What an encoder sends while somebody speaks: every frame is encoded and sent
when it is captured, and the repair packets of a block go out with its last
frame.
-/
namespace Wzp.Client
open Bytes Proto Fec

/-- A packet and when it is sent, in nanoseconds after the first frame. -/
structure Emission where
  time : ℤ
  packet : MediaPacket

/-- What the codec makes of a frame, and a report that is to be sent with it. -/
structure SpeechFrame where
  report : Option QualityReport
  payload : Buf

def SpeechFrame.captured (f : SpeechFrame) : CapturedFrame := ⟨false, some f.payload⟩

/-- A frame of a profile, in nanoseconds. -/
def frameTime (p : QualityProfile) : ℕ := p.frameDurationMs.toNat * 1000000

namespace CallEncoder
variable (rq : RaptorQ)

def withReport (enc : CallEncoder) (report : Option QualityReport) : CallEncoder :=
  match report with
  | some report => enc.setPendingQualityReport report
  | none => enc

/-- What is sent for the frames from number `k` on. -/
def emitFrom (p : QualityProfile) : CallEncoder → ℕ → List SpeechFrame → List Emission
  | _, _, [] => []
  | enc, k, f :: fs =>
      let out := (enc.withReport f.report).encodeFrame rq f.captured
      (out.2.getD []).map (fun packet => ⟨k * frameTime p, packet⟩) ++ emitFrom p out.1 (k + 1) fs

def emit (config : CallConfig) (fs : List SpeechFrame) : List Emission :=
  emitFrom rq config.profile (new config) 0 fs

end CallEncoder

/-- Repair symbols are as long as the other symbols. -/
def RepairSized (rq : RaptorQ) : Prop :=
  ∀ block symbolSize data start count,
    ∀ pkt ∈ rq.repairPackets block symbolSize data start count, pkt.data.length = symbolSize.toNat

/-- A code whose repair symbols are blank. -/
def blankRepair : RaptorQ where
  repairPackets block symbolSize _ start count :=
    (List.range count).map fun i => ⟨block, start + i, List.replicate symbolSize.toNat 0⟩
  decode _ _ _ _ := none

theorem blankRepair_sized : RepairSized blankRepair := by
  intro block symbolSize data start count pkt hpkt
  obtain ⟨i, -, rfl⟩ := List.mem_map.mp hpkt
  exact List.length_replicate

/-- The packets are numbered from `seq` on. `k` frames have been captured before
them. A source packet is stamped with the time of its frame, a repair packet
with that of the next one. -/
def Numbered (p : QualityProfile) (P : Buf → Prop) : UInt32 → ℕ → List Emission → Prop
  | _, _, [] => True
  | seq, k, e :: es =>
      e.packet.header.codecId = p.codec ∧ e.packet.header.seq = seq ∧
      e.packet.header.timestamp = UInt32.ofNat (k * p.frameDurationMs.toNat) ∧
      if e.packet.header.isRepair then
        p.codec.isOpus = false ∧ 0 < k ∧ e.time = (k - 1 : ℕ) * frameTime p ∧
          e.packet.payload.length = AdaptiveFec.defaultSymbolSize.toNat ∧ Numbered p P (seq + 1) k es
      else e.time = k * frameTime p ∧ P e.packet.payload ∧ Numbered p P (seq + 1) (k + 1) es

/-! ## One frame -/

/-- An encoder with this profile after `k` frames. -/
structure Stamped (p : QualityProfile) (k : ℕ) (enc : CallEncoder) : Prop where
  profile : enc.profile = p
  stamp : enc.timestampMs = UInt32.ofNat (k * p.frameDurationMs.toNat)

/-- It is also ready for the next frame. -/
structure Speaking (p : QualityProfile) (k : ℕ) (enc : CallEncoder) : Prop
    extends Stamped p k enc where
  symbols : enc.fecEnc.sourceSymbols.length = enc.frameInBlock.toNat
  perBlock : enc.fecEnc.framesPerBlock = p.framesPerBlock.toNat
  symbolSize : enc.fecEnc.symbolSize = AdaptiveFec.defaultSymbolSize
  inBlock : enc.frameInBlock = 0 ∨ enc.frameInBlock < p.framesPerBlock

variable {rq : RaptorQ} {p : QualityProfile} {P : Buf → Prop} {enc : CallEncoder} {k : ℕ}
  {f : SpeechFrame} {fs : List SpeechFrame} {es : List Emission}

theorem speaking_new (config : CallConfig) : Speaking config.profile 0 (.new config) :=
  ⟨⟨rfl, by rw [Nat.zero_mul]; rfl⟩, rfl, rfl, rfl, Or.inl rfl⟩

theorem Stamped.afterSource (h : Stamped p k enc) :
    Stamped p (k + 1) (CallEncoder.afterSource { enc with cnCounter := 0 }) := by
  refine ⟨h.profile, ?_⟩
  change enc.timestampMs + enc.profile.frameDurationMs.toUInt32 = _
  rw [h.stamp, h.profile, Nat.succ_mul, UInt32.ofNat_add, UInt32.ofNat_uInt8ToNat]

namespace Speaking

theorem withReport (h : Speaking p k enc) (report : Option QualityReport) :
    Speaking p k (enc.withReport report) := by
  cases report with
  | none => exact h
  | some report =>
      exact ⟨⟨h.profile, h.stamp⟩, h.symbols, h.perBlock, h.symbolSize, h.inBlock⟩

theorem opus (h : Speaking p k enc) :
    Speaking p (k + 1) (CallEncoder.afterSource { enc with cnCounter := 0 }) :=
  ⟨h.afterSource, h.symbols, h.perBlock, h.symbolSize, h.inBlock⟩

theorem withSymbol (h : Speaking p k enc) (payload : Buf)
    (hroom : enc.frameInBlock + 1 < p.framesPerBlock)
    (hlt : enc.frameInBlock < p.framesPerBlock) : Speaking p (k + 1) (enc.withSymbol payload) := by
  refine ⟨⟨h.profile, h.afterSource.stamp⟩, ?_, h.perBlock, h.symbolSize, Or.inr hroom⟩
  have hbound : p.framesPerBlock.toNat < 2 ^ 8 := p.framesPerBlock.toNat_lt
  have hlt' := UInt8.lt_iff_toNat_lt.mp hlt
  change (enc.fecEnc.sourceSymbols ++ [payload]).length = (enc.frameInBlock + 1).toNat
  rw [List.length_append, List.length_singleton, h.symbols, UInt8.toNat_add]
  change enc.frameInBlock.toNat + 1 = (enc.frameInBlock.toNat + 1) % 2 ^ 8
  omega

theorem closeBlock (rq : RaptorQ) (h : Speaking p k enc) (payload : Buf) :
    Speaking p (k + 1) ((enc.withSymbol payload).closeBlock rq).1 :=
  ⟨⟨h.profile, h.afterSource.stamp⟩, rfl, h.perBlock, h.symbolSize, Or.inl rfl⟩

end Speaking

theorem withReport_seq (enc : CallEncoder) (report : Option QualityReport) :
    (enc.withReport report).seq = enc.seq := by
  cases report <;> rfl

theorem sourcePacket_not_isRepair (enc : CallEncoder) (encoded : Buf) :
    (enc.sourcePacket encoded).header.isRepair = false := by
  change ((if enc.pendingQualityReport.isSome then MediaHeader.flagQuality else 0) &&&
    MediaHeader.flagRepair != 0) = false
  cases enc.pendingQualityReport.isSome <;> decide

theorem repairPacket_isRepair (enc : CallEncoder) (seq : UInt32) (symIdx : UInt16) (data : Buf) :
    (enc.repairPacket seq symIdx data).header.isRepair = true := by
  change (MediaHeader.flagRepair &&& MediaHeader.flagRepair != 0) = true
  decide

theorem generateRepair_length (hrq : RepairSized rq) (fecEnc : RaptorQFecEncoder) (ratio : Float32) :
    ∀ r ∈ fecEnc.generateRepair rq ratio, r.2.length = fecEnc.symbolSize.toNat := by
  intro r hr
  unfold RaptorQFecEncoder.generateRepair at hr
  dsimp only at hr
  split at hr
  · cases hr
  · obtain ⟨⟨pkt, i⟩, hmem, rfl⟩ := List.mem_map.mp hr
    exact hrq _ _ _ _ _ pkt (List.fst_mem_of_mem_zipIdx hmem)

/-- A source packet, and what is numbered after it. -/
theorem numbered_source (h : Stamped p k enc) (hP : P f.payload)
    (hrest : Numbered p P (enc.seq + 1) (k + 1) es) :
    Numbered p P enc.seq k
      (⟨k * frameTime p, CallEncoder.sourcePacket { enc with cnCounter := 0 } f.payload⟩ :: es) := by
  refine ⟨congrArg QualityProfile.codec h.profile, rfl, h.stamp, ?_⟩
  rw [if_neg (by rw [sourcePacket_not_isRepair]; exact Bool.false_ne_true)]
  exact ⟨rfl, hP, hrest⟩

/-- Repair packets, and what is numbered after them. -/
theorem numbered_repairs (h : Stamped p (k + 1) enc) (hopus : p.codec.isOpus = false)
    {repairs : List (UInt16 × Buf)}
    (hsize : ∀ r ∈ repairs, r.2.length = AdaptiveFec.defaultSymbolSize.toNat) (n : ℕ)
    (hrest : Numbered p P (enc.seq + UInt32.ofNat (n + repairs.length)) (k + 1) es) :
    Numbered p P (enc.seq + UInt32.ofNat n) (k + 1)
      (((repairs.zipIdx n).map fun (r, i) =>
        (⟨k * frameTime p, enc.repairPacket (enc.seq + UInt32.ofNat i) r.1 r.2⟩ : Emission)) ++ es) := by
  induction repairs generalizing n with
  | nil => exact hrest
  | cons r repairs ih =>
      rw [List.zipIdx_cons, List.map_cons, List.cons_append]
      refine ⟨congrArg QualityProfile.codec h.profile, rfl, h.stamp, ?_⟩
      rw [if_pos (repairPacket_isRepair _ _ _ _)]
      refine ⟨hopus, Nat.succ_pos k, rfl, hsize r List.mem_cons_self, ?_⟩
      have hnext := ih (fun r' hr' => hsize r' (List.mem_cons_of_mem r hr')) (n + 1)
        (by rwa [List.length_cons, ← Nat.add_assoc, Nat.add_right_comm] at hrest)
      rwa [UInt32.ofNat_add, ← UInt32.add_assoc] at hnext

/-! ## The stream -/

/-- Without room for a frame in a block nothing is sent but Opus. -/
theorem emitFrom_no_block (hopus : enc.profile.codec.isOpus = false)
    (hblock : enc.fecEnc.framesPerBlock = 0) : enc.emitFrom rq p k fs = [] := by
  induction fs generalizing enc k with
  | nil => rfl
  | cons f fs ih =>
      have hreport : (enc.withReport f.report).profile = enc.profile ∧
          (enc.withReport f.report).fecEnc = enc.fecEnc := by
        cases f.report with
        | none => exact ⟨rfl, rfl⟩
        | some report => exact ⟨rfl, rfl⟩
      have hout := @CallEncoder.encodeFrame_full rq (enc.withReport f.report) f.captured f.payload
        (Bool.and_false _) rfl (by rw [hreport.1, hopus])
        (by rw [hreport.2, hblock]; exact Nat.zero_le _)
      rw [CallEncoder.emitFrom, hout]
      exact ih (by rw [← hopus, ← hreport.1]; rfl) (by rw [← hblock, ← hreport.2]; rfl)

/-- The repair packets of a block that is full with this frame. -/
theorem numbered_closeBlock (hrq : RepairSized rq) (h : Speaking p k enc) (payload : Buf)
    (hopus : p.codec.isOpus = false)
    (hrest : Numbered p P ((enc.withSymbol payload).closeBlock rq).1.seq (k + 1) es) :
    Numbered p P (enc.seq + 1) (k + 1)
      (((enc.withSymbol payload).closeBlock rq).2.map (fun packet => ⟨k * frameTime p, packet⟩) ++
        es) := by
  have hstamped : Stamped p (k + 1) (enc.withSymbol payload) := ⟨h.profile, h.afterSource.stamp⟩
  have hsize : ∀ r ∈ (enc.withSymbol payload).fecEnc.generateRepair rq
      (enc.withSymbol payload).profile.fecRatio,
      r.2.length = AdaptiveFec.defaultSymbolSize.toNat := by
    intro r hr
    rw [generateRepair_length hrq _ _ r hr]
    exact congrArg UInt16.toNat h.symbolSize
  have hrepairs := @numbered_repairs p P _ k es hstamped hopus _ hsize 0
    (by rwa [Nat.zero_add])
  rw [show UInt32.ofNat 0 = 0 from rfl, UInt32.add_zero] at hrepairs
  rw [CallEncoder.closeBlock, List.map_map]
  exact hrepairs

theorem numbered_emitFrom (hrq : RepairSized rq) (hP : ∀ f ∈ fs, P f.payload)
    (h : Speaking p k enc) : Numbered p P enc.seq k (enc.emitFrom rq p k fs) := by
  induction fs generalizing enc k with
  | nil => trivial
  | cons f fs ih =>
      have hf := hP f List.mem_cons_self
      have hfs : ∀ f' ∈ fs, P f'.payload := fun f' hf' => hP f' (List.mem_cons_of_mem f hf')
      have hr := h.withReport f.report
      have hspoken : ((enc.withReport f.report).suppressionEnabled && f.captured.silent) = false :=
        Bool.and_false _
      by_cases hopus : p.codec.isOpus = true
      · have hout := @CallEncoder.encodeFrame_opus rq _ f.captured f.payload hspoken rfl
          (by rwa [hr.profile])
        have hrest := ih hfs hr.opus
        rw [CallEncoder.emitFrom, hout, ← withReport_seq enc f.report]
        exact numbered_source hr.toStamped hf hrest
      · have hopus : p.codec.isOpus = false := by simpa only [Bool.not_eq_true] using hopus
        have hopus' : (enc.withReport f.report).profile.codec.isOpus = false := by rwa [hr.profile]
        by_cases hroom : (enc.withReport f.report).fecEnc.framesPerBlock ≤
            (enc.withReport f.report).fecEnc.sourceSymbols.length
        · -- then the profile has no frames in a block
          have hzero : enc.fecEnc.framesPerBlock = 0 := by
            have hin := hr.inBlock
            rw [hr.perBlock, hr.symbols] at hroom
            rw [h.perBlock]
            rcases hin with hin | hin
            · rw [hin] at hroom
              exact Nat.le_zero.mp hroom
            · exact absurd (UInt8.lt_iff_toNat_lt.mp hin) (Nat.not_lt.mpr hroom)
          rw [emitFrom_no_block (by rwa [h.profile]) hzero]
          trivial
        · have hlt : (enc.withReport f.report).frameInBlock < p.framesPerBlock := by
            rw [hr.perBlock, hr.symbols, Nat.not_le] at hroom
            exact UInt8.lt_iff_toNat_lt.mpr hroom
          have hout := @CallEncoder.encodeFrame_codec2 rq _ f.captured f.payload hspoken rfl hopus'
            hroom
          rw [CallEncoder.emitFrom, ← withReport_seq enc f.report]
          by_cases hfull : (enc.withReport f.report).profile.framesPerBlock ≤
              (enc.withReport f.report).frameInBlock + 1
          · rw [if_pos hfull] at hout
            have hrest := ih hfs (hr.closeBlock rq f.payload)
            rw [hout]
            exact numbered_source hr.toStamped hf (numbered_closeBlock hrq hr f.payload hopus hrest)
          · rw [if_neg hfull] at hout
            rw [hr.profile] at hfull
            have hrest := ih hfs (hr.withSymbol f.payload (UInt8.not_le.mp hfull) hlt)
            rw [hout]
            exact numbered_source hr.toStamped hf hrest

/-- What is sent for speech is numbered from zero on. -/
theorem numbered_emit (hrq : RepairSized rq) (config : CallConfig) (hP : ∀ f ∈ fs, P f.payload) :
    Numbered config.profile P 0 0 (CallEncoder.emit rq config fs) :=
  numbered_emitFrom hrq hP (speaking_new config)

end Wzp.Client
