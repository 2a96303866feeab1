import Wzp.Client.CallEncoder
import Wzp.Lib.BlockLabels

/-!
# FEC labels

What an encoder has sent, with what each packet is a symbol of, and the labels
under which the receiver's FEC decoder files the packets.
-/
namespace Wzp.Client
open Bytes Proto Fec Runs

inductive EncoderOp where
  | encodeFrame (frame : CapturedFrame)
  | setProfile (profile : QualityProfile) (accepted : Bool)
  | setPendingQualityReport (report : QualityReport)

/-- A packet, how many blocks were closed before it, and which symbol it is. -/
structure SentPacket where
  packet : MediaPacket
  block : ℕ
  index : ℕ
  content : BlockLabels.Content

namespace SentPacket

/-- The receiver hands every packet that is not Opus to its FEC decoder. -/
def fed (p : SentPacket) : Bool := !p.packet.header.codecId.isOpus

def symbol (p : SentPacket) : BlockLabels.Symbol := ⟨p.block, p.index, p.content⟩

end SentPacket

/-- An encoder, the number of its closed blocks and of its operations so far, and
what it has sent. -/
structure Sending where
  enc : CallEncoder
  closed : ℕ
  time : ℕ
  sent : List SentPacket

namespace Sending
variable (rq : RaptorQ)

def start (config : CallConfig) : Sending := ⟨.new config, 0, 0, []⟩

/-- The first packet of a frame that is not silent carries the frame, the others
are repair packets of its block. -/
def tag (s : Sending) (frame : CapturedFrame) (packet : MediaPacket) (i : ℕ) : SentPacket :=
  if s.enc.suppressionEnabled && frame.silent then ⟨packet, s.closed, 0, .filler⟩
  else
    ⟨packet, s.closed, s.enc.frameInBlock.toNat + i,
      if i = 0 then .data s.time else .parity s.closed (i - 1)⟩

def step (s : Sending) : EncoderOp → Sending
  | .encodeFrame frame =>
      let enc := (s.enc.encodeFrame rq frame).1
      let packets := (s.enc.encodeFrame rq frame).2.getD []
      { enc := enc
        closed := if enc.blockId = s.enc.blockId then s.closed else s.closed + 1
        time := s.time + 1
        sent := s.sent ++ packets.zipIdx.map fun (p, i) => s.tag frame p i }
  | .setProfile profile accepted =>
      { s with enc := s.enc.setProfile profile accepted, time := s.time + 1 }
  | .setPendingQualityReport report =>
      { s with enc := s.enc.setPendingQualityReport report, time := s.time + 1 }

/-- Packets less than 256 blocks apart that the receiver files under one label
are the same symbol of the same block. -/
def LabelsIdentify (s : Sending) : Prop :=
  ∀ p ∈ s.sent, ∀ q ∈ s.sent, p.fed = true → q.fed = true →
    p.block < q.block + 256 → q.block < p.block + 256 →
      p.packet.header.fecBlock = q.packet.header.fecBlock → p.content = q.content

/-- The frame is silent and comfort noise is due. -/
def SendsNoise (s : Sending) (frame : CapturedFrame) : Prop :=
  (s.enc.suppressionEnabled && frame.silent) = true ∧ (s.enc.cnCounter + 1) % 10 = 0

/-- The frame is encoded, for FEC, and its block has room. -/
def SendsSymbol (s : Sending) (frame : CapturedFrame) : Prop :=
  (s.enc.suppressionEnabled && frame.silent) = false ∧ frame.encoded.isSome ∧
    s.enc.profile.codec.isOpus = false ∧ s.enc.frameInBlock < s.enc.profile.framesPerBlock

instance (s : Sending) (frame : CapturedFrame) : Decidable (s.SendsNoise frame) :=
  inferInstanceAs (Decidable (_ ∧ _))

instance (s : Sending) (frame : CapturedFrame) : Decidable (s.SendsSymbol frame) :=
  inferInstanceAs (Decidable (_ ∧ _))

/-- Comfort noise is sent only while the block has no frame. A block is begun
only under a number under which nothing has been sent. A full block and its
repair symbols are not more than 256. -/
def KeepsLabels (s : Sending) : EncoderOp → Prop
  | .encodeFrame frame =>
      (s.SendsNoise frame →
        ∀ p ∈ s.sent, p.fed = true → p.block = s.closed → ¬ p.symbol.IsData) ∧
      (s.SendsSymbol frame →
        (s.enc.frameInBlock = 0 → ∀ p ∈ s.sent, p.fed = true → p.block ≠ s.closed) ∧
        (s.enc.profile.framesPerBlock.toNat = s.enc.frameInBlock.toNat + 1 →
          s.enc.profile.framesPerBlock.toNat +
            RaptorQFecEncoder.numRepair s.enc.profile.framesPerBlock.toNat s.enc.profile.fecRatio ≤ 256))
  | .setProfile _ _ => True
  | .setPendingQualityReport _ => True

end Sending

/-! ## Labels -/

theorem toNat_fecLabel (blockId : UInt8) (symbolIndex : UInt16) :
    (fecLabel blockId symbolIndex).toNat = blockId.toNat + symbolIndex.toNat % 256 * 256 := by
  have hlt : blockId.toNat < 2 ^ 8 := blockId.toNat_lt
  have hshift : (symbolIndex <<< 8).toNat = (symbolIndex.toNat % 256) <<< 8 := by
    rw [UInt16.toNat_shiftLeft, Nat.shiftLeft_eq, Nat.shiftLeft_eq]
    have : symbolIndex.toNat < 2 ^ 16 := symbolIndex.toNat_lt
    simp only [UInt16.toNat_ofNat, Nat.reducePow, Nat.reduceMod]
    omega
  rw [fecLabel, UInt16.toNat_or, hshift, Nat.or_comm, UInt8.toNat_toUInt16,
    ← Nat.shiftLeft_add_eq_or_of_lt hlt, Nat.shiftLeft_eq, Nat.add_comm]

theorem fecLabel_eq_iff {b c : UInt8} {i j : UInt16} :
    fecLabel b i = fecLabel c j ↔ b = c ∧ i.toNat % 256 = j.toNat % 256 := by
  rw [← UInt16.toNat_inj, toNat_fecLabel, toNat_fecLabel, ← UInt8.toNat_inj]
  have hb : b.toNat < 256 := b.toNat_lt
  have hc : c.toNat < 256 := c.toNat_lt
  omega

theorem toUInt16_eq_fecLabel (b : UInt8) : b.toUInt16 = fecLabel b 0 := by
  rw [← UInt16.toNat_inj, toNat_fecLabel]
  exact (Nat.add_zero _).symm

/-! ## One frame -/

namespace CallEncoder
variable {rq : RaptorQ} {enc : CallEncoder} {frame : CapturedFrame}

theorem encodeFrame_silent (h : (enc.suppressionEnabled && frame.silent) = true) :
    enc.encodeFrame rq frame = (enc.suppress.1, some enc.suppress.2) := if_pos h

theorem encodeFrame_failed (h : (enc.suppressionEnabled && frame.silent) = false)
    (hnone : frame.encoded = none) :
    enc.encodeFrame rq frame = ({ enc with cnCounter := 0 }, none) := by
  simp only [encodeFrame, h, Bool.false_eq_true, if_false, hnone]

theorem encodeFrame_opus {encoded : Buf} (h : (enc.suppressionEnabled && frame.silent) = false)
    (hsome : frame.encoded = some encoded) (hopus : enc.profile.codec.isOpus = true) :
    enc.encodeFrame rq frame = (afterSource { enc with cnCounter := 0 },
      some [sourcePacket { enc with cnCounter := 0 } encoded]) := by
  simp only [encodeFrame, h, Bool.false_eq_true, if_false, hsome, afterSource, hopus, if_true]

/-- The encoder with one more frame in its block. -/
def withSymbol (enc : CallEncoder) (encoded : Buf) : CallEncoder :=
  { afterSource { enc with cnCounter := 0 } with
    fecEnc := { enc.fecEnc with sourceSymbols := enc.fecEnc.sourceSymbols ++ [encoded] }
    frameInBlock := enc.frameInBlock + 1 }

theorem encodeFrame_full {encoded : Buf} (h : (enc.suppressionEnabled && frame.silent) = false)
    (hsome : frame.encoded = some encoded) (hopus : enc.profile.codec.isOpus = false)
    (hfull : enc.fecEnc.framesPerBlock ≤ enc.fecEnc.sourceSymbols.length) :
    enc.encodeFrame rq frame = (afterSource { enc with cnCounter := 0 }, none) := by
  have hadd : enc.fecEnc.addSourceSymbol encoded = .error (.blockFull enc.fecEnc.framesPerBlock) :=
    if_pos hfull
  simp only [encodeFrame, h, Bool.false_eq_true, if_false, hsome, afterSource, hopus, hadd]

theorem encodeFrame_codec2 {encoded : Buf} (h : (enc.suppressionEnabled && frame.silent) = false)
    (hsome : frame.encoded = some encoded) (hopus : enc.profile.codec.isOpus = false)
    (hroom : ¬ enc.fecEnc.framesPerBlock ≤ enc.fecEnc.sourceSymbols.length) :
    enc.encodeFrame rq frame =
      if enc.profile.framesPerBlock ≤ enc.frameInBlock + 1 then
        (((enc.withSymbol encoded).closeBlock rq).1,
          some (sourcePacket { enc with cnCounter := 0 } encoded ::
            ((enc.withSymbol encoded).closeBlock rq).2))
      else (enc.withSymbol encoded, some [sourcePacket { enc with cnCounter := 0 } encoded]) := by
  have hadd : enc.fecEnc.addSourceSymbol encoded =
      .ok { enc.fecEnc with sourceSymbols := enc.fecEnc.sourceSymbols ++ [encoded] } := if_neg hroom
  simp only [encodeFrame, h, Bool.false_eq_true, if_false, hsome, afterSource, hopus, hadd]
  rfl

/-- The repair packets are numbered on from the frames of the block. -/
theorem closeBlock_packets (hrq : rq.Documented) (hkey : enc.fecEnc.hasKeyframe = false)
    (hpos : 0 < enc.fecEnc.sourceSymbols.length) : ∃ data : ℕ → Buf,
      (enc.closeBlock rq).2 =
        (List.range (RaptorQFecEncoder.numRepair enc.fecEnc.sourceSymbols.length
          enc.profile.fecRatio)).map fun i => enc.repairPacket (enc.seq + UInt32.ofNat i)
            (UInt16.ofNat (enc.fecEnc.sourceSymbols.length + i)) (data i) := by
  have hratio : enc.fecEnc.effectiveRatio enc.profile.fecRatio = enc.profile.fecRatio := by
    simp only [RaptorQFecEncoder.effectiveRatio, hkey, Bool.false_and, Bool.false_eq_true, if_false]
  simp only [closeBlock, RaptorQFecEncoder.generateRepair, hratio]
  generalize RaptorQFecEncoder.numRepair enc.fecEnc.sourceSymbols.length enc.profile.fecRatio = count
  by_cases hzero : count = 0
  · rw [if_pos (Or.inr hzero), hzero]
    exact ⟨fun _ => [], rfl⟩
  · rw [if_neg (by omega)]
    have hlen := hrq.repairCount enc.fecEnc.blockId.toUInt8 enc.fecEnc.symbolSize
      enc.fecEnc.buildBlockData 0 count
    generalize rq.repairPackets enc.fecEnc.blockId.toUInt8 enc.fecEnc.symbolSize
      enc.fecEnc.buildBlockData 0 count = packets at hlen ⊢
    refine ⟨fun i => (packets[i]?.map EncodingPacket.data).getD [], ?_⟩
    apply List.ext_getElem
    · simp only [List.length_map, List.length_zipIdx, hlen, List.length_range]
    · intro i h₁ h₂
      have hi : i < packets.length := by
        simpa only [List.length_map, List.length_zipIdx] using h₁
      simp only [List.getElem_map, List.getElem_zipIdx, Nat.zero_add, List.getElem_range,
        List.getElem?_eq_getElem hi, Option.map_some, Option.getD_some, UInt16.ofNat_add]

theorem encodeFrame_keeps (rq : RaptorQ) (enc : CallEncoder) (frame : CapturedFrame) :
    (enc.encodeFrame rq frame).1.profile = enc.profile ∧
      (enc.encodeFrame rq frame).1.suppressionEnabled = enc.suppressionEnabled := by
  cases hsilent : enc.suppressionEnabled && frame.silent with
  | true =>
      rw [encodeFrame_silent hsilent]
      unfold suppress
      dsimp only
      split
      · exact ⟨rfl, rfl⟩
      · exact ⟨rfl, rfl⟩
  | false =>
      cases hencoded : frame.encoded with
      | none =>
          rw [encodeFrame_failed hsilent hencoded]
          exact ⟨rfl, rfl⟩
      | some encoded =>
          cases hopus : enc.profile.codec.isOpus with
          | true =>
              rw [encodeFrame_opus hsilent hencoded hopus]
              exact ⟨rfl, rfl⟩
          | false =>
              by_cases hfull : enc.fecEnc.framesPerBlock ≤ enc.fecEnc.sourceSymbols.length
              · rw [encodeFrame_full hsilent hencoded hopus hfull]
                exact ⟨rfl, rfl⟩
              · rw [encodeFrame_codec2 hsilent hencoded hopus hfull]
                split
                · exact ⟨rfl, rfl⟩
                · exact ⟨rfl, rfl⟩

end CallEncoder

/-! ## Sent symbols -/

namespace Sending
variable {rq : RaptorQ} {s : Sending} {frame : CapturedFrame}

/-- The encoder, its FEC encoder and the number of closed blocks agree on where
the block is. -/
structure Aligned (s : Sending) : Prop where
  blockId : s.enc.blockId = UInt8.ofNat s.closed
  symbols : s.enc.fecEnc.sourceSymbols.length = s.enc.frameInBlock.toNat
  perBlock : s.enc.fecEnc.framesPerBlock = s.enc.profile.framesPerBlock.toNat
  noKeyframe : s.enc.fecEnc.hasKeyframe = false
  inBlock : s.enc.frameInBlock = 0 ∨ s.enc.frameInBlock < s.enc.profile.framesPerBlock
  labelled : ∀ p ∈ s.sent, p.fed = true →
    p.packet.header.fecBlock = fecLabel (UInt8.ofNat p.block) (UInt16.ofNat p.index)

/-- What the FEC decoder is fed, as symbols in blocks. -/
def view (s : Sending) : BlockLabels.State :=
  ⟨s.closed, s.enc.frameInBlock.toNat, s.time, (s.sent.filter SentPacket.fed).map SentPacket.symbol⟩

/-- An operation as seen by the FEC decoder. -/
def labelEvent (s : Sending) : EncoderOp → BlockLabels.Event
  | .encodeFrame frame =>
      if s.SendsNoise frame then .filler
      else if s.SendsSymbol frame then
        if s.enc.profile.framesPerBlock ≤ s.enc.frameInBlock + 1 then
          .closing (RaptorQFecEncoder.numRepair (s.enc.frameInBlock.toNat + 1) s.enc.profile.fecRatio)
        else .data
      else .other
  | .setProfile _ accepted => if accepted then .restart else .other
  | .setPendingQualityReport _ => .other

theorem start_aligned (config : CallConfig) : Aligned (start config) :=
  ⟨rfl, rfl, rfl, rfl, Or.inl rfl, fun _ hp => absurd hp List.not_mem_nil⟩

theorem mem_view {x : BlockLabels.Symbol} :
    x ∈ (view s).sent ↔ ∃ p ∈ s.sent, p.fed = true ∧ p.symbol = x := by
  simp only [view, List.mem_map, List.mem_filter, and_assoc]

theorem labelsIdentify_iff (h : Aligned s) : LabelsIdentify s ↔ BlockLabels.Identifies 256 (view s) := by
  have hlabel : ∀ p ∈ s.sent, ∀ q ∈ s.sent, p.fed = true → q.fed = true →
      (p.packet.header.fecBlock = q.packet.header.fecBlock ↔
        BlockLabels.SameLabel 256 p.symbol q.symbol) := by
    intro p hp q hq hpf hqf
    rw [h.labelled p hp hpf, h.labelled q hq hqf, fecLabel_eq_iff, ← UInt8.toNat_inj]
    simp only [UInt8.toNat_ofNat', UInt16.toNat_ofNat', Nat.reducePow, BlockLabels.SameLabel,
      SentPacket.symbol]
    omega
  constructor
  · intro hid x hx y hy hnear hsame
    obtain ⟨p, hp, hpf, rfl⟩ := mem_view.mp hx
    obtain ⟨q, hq, hqf, rfl⟩ := mem_view.mp hy
    exact hid p hp q hq hpf hqf hnear.1 hnear.2 ((hlabel p hp q hq hpf hqf).mpr hsame)
  · intro hid p hp q hq hpf hqf hpq hqp heq
    exact hid p.symbol (mem_view.mpr ⟨p, hp, hpf, rfl⟩) q.symbol (mem_view.mpr ⟨q, hq, hqf, rfl⟩)
      ⟨hpq, hqp⟩ ((hlabel p hp q hq hpf hqf).mp heq)

/-! ## One operation -/

/-- Nothing that the labels depend on has changed. -/
structure SameBlock (enc enc' : CallEncoder) : Prop where
  fecEnc : enc'.fecEnc = enc.fecEnc
  profile : enc'.profile = enc.profile
  blockId : enc'.blockId = enc.blockId
  frameInBlock : enc'.frameInBlock = enc.frameInBlock

theorem suppress_sameBlock (enc : CallEncoder) : SameBlock enc enc.suppress.1 := by
  unfold CallEncoder.suppress
  dsimp only
  split
  · exact ⟨rfl, rfl, rfl, rfl⟩
  · exact ⟨rfl, rfl, rfl, rfl⟩

theorem aligned_sameBlock (h : Aligned s) {enc' : CallEncoder} (hsame : SameBlock s.enc enc')
    (time : ℕ) {new : List SentPacket} (hnew : ∀ p ∈ new, p.fed = true →
      p.packet.header.fecBlock = fecLabel (UInt8.ofNat p.block) (UInt16.ofNat p.index)) :
    Aligned ⟨enc', s.closed, time, s.sent ++ new⟩ := by
  obtain ⟨hfec, hprofile, hblock, hframe⟩ := hsame
  constructor
  · rw [hblock, h.blockId]
  · rw [hfec, hframe, h.symbols]
  · rw [hfec, hprofile, h.perBlock]
  · rw [hfec, h.noKeyframe]
  · rw [hframe, hprofile]
    exact h.inBlock
  · intro p hp
    rcases List.mem_append.mp hp with hp | hp
    · exact h.labelled p hp
    · exact hnew p hp

theorem view_append (enc : CallEncoder) (closed time : ℕ) {new : List SentPacket}
    (hfed : ∀ p ∈ new, p.fed = true) :
    (view ⟨enc, closed, time, s.sent ++ new⟩).sent =
      (view s).sent ++ new.map SentPacket.symbol := by
  simp only [view, List.filter_append, List.map_append, List.filter_eq_self.mpr hfed]

theorem tag_eq (h : (s.enc.suppressionEnabled && frame.silent) = false) (packet : MediaPacket)
    (i : ℕ) : s.tag frame packet i = ⟨packet, s.closed, s.enc.frameInBlock.toNat + i,
      if i = 0 then .data s.time else .parity s.closed (i - 1)⟩ := by
  simp only [tag, h, Bool.false_eq_true, if_false]

/-- What an operation does to the labels, and that it keeps the encoder aligned. -/
def Simulates (rq : RaptorQ) (s : Sending) (op : EncoderOp) : Prop :=
  Aligned (s.step rq op) ∧ view (s.step rq op) = BlockLabels.step (view s) (s.labelEvent op)

theorem simulates_quiet (h : Aligned s) {enc' : CallEncoder} (hsame : SameBlock s.enc enc')
    {out : Option (List MediaPacket)} (hout : out.getD [] = [])
    (hencode : s.enc.encodeFrame rq frame = (enc', out)) (hnoise : ¬ s.SendsNoise frame)
    (hsymbol : ¬ s.SendsSymbol frame) : Simulates rq s (.encodeFrame frame) := by
  have hevent : s.labelEvent (.encodeFrame frame) = .other := by
    rw [labelEvent, if_neg hnoise, if_neg hsymbol]
  have hstep : s.step rq (.encodeFrame frame) = ⟨enc', s.closed, s.time + 1, s.sent ++ []⟩ := by
    simp only [step, hencode, hout, hsame.blockId, if_true, List.zipIdx_nil, List.map_nil]
  constructor
  · rw [hstep]
    exact aligned_sameBlock h hsame _ fun p hp => absurd hp List.not_mem_nil
  · rw [hstep, hevent]
    simp only [view, List.append_nil, hsame.frameInBlock, BlockLabels.step]

theorem simulates_silent (h : Aligned s)
    (hsilent : (s.enc.suppressionEnabled && frame.silent) = true) :
    Simulates rq s (.encodeFrame frame) := by
  have hencode := @CallEncoder.encodeFrame_silent rq _ _ hsilent
  by_cases hdue : (s.enc.cnCounter + 1) % 10 = 0
  · have hevent : s.labelEvent (.encodeFrame frame) = .filler := if_pos ⟨hsilent, hdue⟩
    have hsame := suppress_sameBlock s.enc
    obtain ⟨pkt, hpkt, hcodec, hlabel⟩ : ∃ pkt, s.enc.suppress.2 = [pkt] ∧
        pkt.header.codecId = .comfortNoise ∧ pkt.header.fecBlock = s.enc.blockId.toUInt16 := by
      simp only [CallEncoder.suppress, if_pos hdue]
      exact ⟨_, rfl, rfl, rfl⟩
    have hstep : s.step rq (.encodeFrame frame) =
        ⟨s.enc.suppress.1, s.closed, s.time + 1, s.sent ++ [⟨pkt, s.closed, 0, .filler⟩]⟩ := by
      simp only [step, hencode, hpkt, Option.getD_some, hsame.blockId, if_true, List.zipIdx_cons,
        List.zipIdx_nil, List.map_cons, List.map_nil, tag, hsilent]
    have hfed : ∀ p ∈ [(⟨pkt, s.closed, 0, .filler⟩ : SentPacket)], p.fed = true := by
      intro p hp
      obtain rfl := List.mem_singleton.mp hp
      simp only [SentPacket.fed, hcodec]
      rfl
    constructor
    · rw [hstep]
      refine aligned_sameBlock h hsame _ fun p hp _ => ?_
      obtain rfl := List.mem_singleton.mp hp
      rw [hlabel, toUInt16_eq_fecLabel, h.blockId]
      rfl
    · have hview := view_append s.enc.suppress.1 s.closed (s.time + 1) hfed (s := s)
      rw [hstep, hevent]
      simp only [view, hsame.frameInBlock, BlockLabels.step] at hview ⊢
      rw [hview]
      rfl
  · refine simulates_quiet h (suppress_sameBlock s.enc) ?_ hencode (fun hs => hdue hs.2) ?_
    · simp only [CallEncoder.suppress, if_neg hdue, Option.getD_some]
    · exact fun hs => Bool.false_ne_true (hs.1.symm.trans hsilent)

theorem simulates_opus (h : Aligned s) {encoded : Buf}
    (hspoken : (s.enc.suppressionEnabled && frame.silent) = false)
    (hsome : frame.encoded = some encoded) (hopus : s.enc.profile.codec.isOpus = true) :
    Simulates rq s (.encodeFrame frame) := by
  have hencode := @CallEncoder.encodeFrame_opus rq _ _ _ hspoken hsome hopus
  have hnoise : ¬ s.SendsNoise frame := fun hs => Bool.false_ne_true (hspoken.symm.trans hs.1)
  have hsymbol : ¬ s.SendsSymbol frame := fun hs => Bool.false_ne_true (hs.2.2.1.symm.trans hopus)
  have hevent : s.labelEvent (.encodeFrame frame) = .other := by
    rw [labelEvent, if_neg hnoise, if_neg hsymbol]
  generalize hpkt : CallEncoder.sourcePacket { s.enc with cnCounter := 0 } encoded = pkt at hencode
  generalize henc : CallEncoder.afterSource { s.enc with cnCounter := 0 } = enc' at hencode
  have hsame : SameBlock s.enc enc' := by
    subst henc
    exact ⟨rfl, rfl, rfl, rfl⟩
  have hcodec : pkt.header.codecId.isOpus = true := by
    subst hpkt
    exact hopus
  have hstep : s.step rq (.encodeFrame frame) =
      ⟨enc', s.closed, s.time + 1, s.sent ++ [s.tag frame pkt 0]⟩ := by
    simp only [step, hencode, Option.getD_some, hsame.blockId, if_true, List.zipIdx_cons,
      List.zipIdx_nil, List.map_cons, List.map_nil]
  have hfed : (s.tag frame pkt 0).fed = false := by
    simp only [tag_eq hspoken, SentPacket.fed, hcodec, Bool.not_true]
  constructor
  · rw [hstep]
    refine aligned_sameBlock h hsame _ fun p hp hpf => ?_
    obtain rfl := List.mem_singleton.mp hp
    rw [hfed] at hpf
    cases hpf
  · rw [hstep, hevent]
    simp only [view, hsame.frameInBlock, BlockLabels.step, List.filter_append, List.filter_cons, hfed,
      Bool.false_eq_true, if_false, List.filter_nil, List.append_nil]

/-- The packets of a frame that goes into its block, numbered from the frame on. -/
theorem tagged_packets (hspoken : (s.enc.suppressionEnabled && frame.silent) = false)
    {packets : List MediaPacket}
    (hlabel : ∀ i (hi : i < packets.length), packets[i].header.codecId.isOpus = false ∧
      packets[i].header.fecBlock =
        fecLabel s.enc.blockId (UInt16.ofNat (s.enc.frameInBlock.toNat + i)))
    (hblock : s.enc.blockId = UInt8.ofNat s.closed) :
    (∀ p ∈ packets.zipIdx.map fun (p, i) => s.tag frame p i, p.fed = true ∧
      p.packet.header.fecBlock = fecLabel (UInt8.ofNat p.block) (UInt16.ofNat p.index)) ∧
    (packets.zipIdx.map fun (p, i) => s.tag frame p i).map SentPacket.symbol =
      (List.range packets.length).map fun i => ⟨s.closed, s.enc.frameInBlock.toNat + i,
        if i = 0 then .data s.time else .parity s.closed (i - 1)⟩ := by
  constructor
  · intro p hp
    obtain ⟨⟨pkt, i⟩, hmem, rfl⟩ := List.mem_map.mp hp
    obtain ⟨_, hi, hget⟩ := List.mem_zipIdx hmem
    simp only [Nat.zero_add, Nat.sub_zero] at hi hget
    obtain ⟨hcodec, hfec⟩ := hlabel i hi
    rw [← hget] at hcodec hfec
    simp only [tag_eq hspoken]
    refine ⟨?_, ?_⟩
    · simp only [SentPacket.fed, hcodec, Bool.not_false]
    · rw [hfec, hblock]
  · apply List.ext_getElem
    · simp only [List.length_map, List.length_zipIdx, List.length_range]
    · intro i h₁ h₂
      simp only [List.getElem_map, List.getElem_zipIdx, Nat.zero_add, List.getElem_range,
        tag_eq hspoken, SentPacket.symbol]

theorem spoken_symbols (s : Sending) (count : ℕ) :
    ((List.range (count + 1)).map fun i => (⟨s.closed, s.enc.frameInBlock.toNat + i,
        if i = 0 then .data s.time else .parity s.closed (i - 1)⟩ : BlockLabels.Symbol)) =
      ⟨s.closed, s.enc.frameInBlock.toNat, .data s.time⟩ ::
        BlockLabels.paritySymbols (view s) count := by
  rw [List.range_succ_eq_map, List.map_cons, List.map_map, BlockLabels.paritySymbols]
  congr 1
  apply List.map_congr_left
  intro i _
  simp only [Function.comp_apply, Nat.succ_eq_add_one, Nat.add_eq_zero_iff, Nat.one_ne_zero, and_false,
    if_false, Nat.add_sub_cancel, view]
  congr 1
  omega

theorem SendsSymbol.toNat_next (hf : s.SendsSymbol frame) :
    (s.enc.frameInBlock + 1).toNat = s.enc.frameInBlock.toNat + 1 ∧
      s.enc.frameInBlock.toNat < s.enc.profile.framesPerBlock.toNat := by
  have hlt := UInt8.lt_iff_toNat_lt.mp hf.2.2.2
  have hmax : s.enc.profile.framesPerBlock.toNat < 256 := s.enc.profile.framesPerBlock.toNat_lt
  refine ⟨?_, hlt⟩
  rw [UInt8.toNat_add]
  exact Nat.mod_eq_of_lt (show s.enc.frameInBlock.toNat + 1 < 256 by omega)

theorem SendsSymbol.labelEvent (hf : s.SendsSymbol frame) : s.labelEvent (.encodeFrame frame) =
    if s.enc.profile.framesPerBlock ≤ s.enc.frameInBlock + 1 then
      .closing (RaptorQFecEncoder.numRepair (s.enc.frameInBlock.toNat + 1) s.enc.profile.fecRatio)
    else .data := by
  have hnoise : ¬ s.SendsNoise frame := fun hs => Bool.false_ne_true (hf.1.symm.trans hs.1)
  rw [Sending.labelEvent, if_neg hnoise, if_pos hf]

theorem SendsSymbol.encodeFrame (rq : RaptorQ) (hf : s.SendsSymbol frame) {encoded : Buf}
    (hencoded : frame.encoded = some encoded) (h : Aligned s) :
    s.enc.encodeFrame rq frame =
      if s.enc.profile.framesPerBlock ≤ s.enc.frameInBlock + 1 then
        (((s.enc.withSymbol encoded).closeBlock rq).1,
          some (CallEncoder.sourcePacket { s.enc with cnCounter := 0 } encoded ::
            ((s.enc.withSymbol encoded).closeBlock rq).2))
      else (s.enc.withSymbol encoded,
        some [CallEncoder.sourcePacket { s.enc with cnCounter := 0 } encoded]) := by
  refine CallEncoder.encodeFrame_codec2 hf.1 hencoded hf.2.2.1 ?_
  rw [h.perBlock, h.symbols]
  exact Nat.not_le.mpr hf.toNat_next.2

theorem SendsSymbol.source_label (hf : s.SendsSymbol frame) (encoded : Buf) :
    (CallEncoder.sourcePacket { s.enc with cnCounter := 0 } encoded).header.fecBlock =
      fecLabel s.enc.blockId (UInt16.ofNat (s.enc.frameInBlock.toNat + 0)) := by
  simp only [CallEncoder.sourcePacket, hf.2.2.1, Bool.false_eq_true, if_false, Nat.add_zero,
    fecLabel_eq_iff, true_and, UInt8.toNat_toUInt16, UInt16.toNat_ofNat']
  omega

theorem simulates_data (hf : s.SendsSymbol frame) (h : Aligned s)
    (hlast : ¬ s.enc.profile.framesPerBlock ≤ s.enc.frameInBlock + 1) :
    Simulates rq s (.encodeFrame frame) := by
  have hevent : s.labelEvent (.encodeFrame frame) = .data := hf.labelEvent.trans (if_neg hlast)
  obtain ⟨encoded, hencoded⟩ := Option.isSome_iff_exists.mp hf.2.1
  have hencode := (hf.encodeFrame rq hencoded h).trans (if_neg hlast)
  generalize hpkt : CallEncoder.sourcePacket { s.enc with cnCounter := 0 } encoded = pkt at hencode
  have hlabel : ∀ i (hi : i < [pkt].length), [pkt][i].header.codecId.isOpus = false ∧
      [pkt][i].header.fecBlock =
        fecLabel s.enc.blockId (UInt16.ofNat (s.enc.frameInBlock.toNat + i)) := by
    intro i hi
    obtain rfl : i = 0 := Nat.lt_one_iff.mp hi
    subst hpkt
    exact ⟨hf.2.2.1, hf.source_label encoded⟩
  obtain ⟨hnew, hsymbols⟩ := tagged_packets hf.1 hlabel h.blockId
  have hstep : s.step rq (.encodeFrame frame) = ⟨s.enc.withSymbol encoded, s.closed, s.time + 1,
      s.sent ++ [pkt].zipIdx.map fun (p, i) => s.tag frame p i⟩ := by
    simp only [step, hencode, Option.getD_some]
    congr 1
    exact if_pos rfl
  rw [Simulates, hstep, hevent]
  constructor
  · refine ⟨h.blockId, ?_, h.perBlock, h.noKeyframe, Or.inr ?_, ?_⟩
    · simp only [CallEncoder.withSymbol, List.length_append, List.length_singleton, h.symbols,
        hf.toNat_next.1]
    · exact UInt8.not_le.mp hlast
    · intro p hp hpf
      rcases List.mem_append.mp hp with hp | hp
      · exact h.labelled p hp hpf
      · exact (hnew p hp).2
  · have hview := view_append (s.enc.withSymbol encoded) s.closed (s.time + 1)
      (fun p hp => (hnew p hp).1) (s := s)
    rw [hsymbols] at hview
    simp only [view, BlockLabels.step] at hview ⊢
    rw [hview]
    exact congrArg (fun n => BlockLabels.State.mk s.closed n (s.time + 1) _) hf.toNat_next.1

/-- The repair packets of a block go on with the numbers of its last frame. -/
theorem SendsSymbol.closing_labels (hf : s.SendsSymbol frame) (encoded : Buf) {count : ℕ}
    {data : ℕ → Buf} {repairs : List MediaPacket}
    (hrepair : repairs = (List.range count).map fun i =>
      (s.enc.withSymbol encoded).repairPacket ((s.enc.withSymbol encoded).seq + UInt32.ofNat i)
        (UInt16.ofNat (s.enc.frameInBlock.toNat + 1 + i)) (data i)) :
    let packets := CallEncoder.sourcePacket { s.enc with cnCounter := 0 } encoded :: repairs
    ∀ i (hi : i < packets.length), packets[i].header.codecId.isOpus = false ∧
      packets[i].header.fecBlock =
        fecLabel s.enc.blockId (UInt16.ofNat (s.enc.frameInBlock.toNat + i)) := by
  intro packets i hi
  cases i with
  | zero => exact ⟨hf.2.2.1, hf.source_label encoded⟩
  | succ i =>
      simp only [packets, hrepair, List.getElem_cons_succ, List.getElem_map, List.getElem_range]
      refine ⟨hf.2.2.1, ?_⟩
      rw [show s.enc.frameInBlock.toNat + (i + 1) = s.enc.frameInBlock.toNat + 1 + i by omega]
      rfl

theorem blockId_moves (id : UInt8) : id + 1 ≠ id := by
  intro heq
  have hnat := congrArg UInt8.toNat heq
  rw [UInt8.toNat_add] at hnat
  have hone : (1 : UInt8).toNat = 1 := rfl
  omega

/-- The repair packets of a block that the next frame closes. -/
theorem Aligned.closing_packets (hrq : rq.Documented) (h : Aligned s) (encoded : Buf) :
    ∃ data : ℕ → Buf, ((s.enc.withSymbol encoded).closeBlock rq).2 =
      (List.range (RaptorQFecEncoder.numRepair (s.enc.frameInBlock.toNat + 1)
        s.enc.profile.fecRatio)).map fun i =>
          (s.enc.withSymbol encoded).repairPacket ((s.enc.withSymbol encoded).seq + UInt32.ofNat i)
            (UInt16.ofNat (s.enc.frameInBlock.toNat + 1 + i)) (data i) := by
  have hlen : (s.enc.withSymbol encoded).fecEnc.sourceSymbols.length = s.enc.frameInBlock.toNat + 1 := by
    simp only [CallEncoder.withSymbol, List.length_append, List.length_singleton, h.symbols]
  obtain ⟨data, hrepair⟩ := @CallEncoder.closeBlock_packets rq (s.enc.withSymbol encoded) hrq
    h.noKeyframe (by omega)
  rw [hlen] at hrepair
  exact ⟨data, hrepair⟩

theorem simulates_closing (hrq : rq.Documented) (hf : s.SendsSymbol frame) (h : Aligned s)
    (hlast : s.enc.profile.framesPerBlock ≤ s.enc.frameInBlock + 1) :
    Simulates rq s (.encodeFrame frame) := by
  have hevent := hf.labelEvent.trans (if_pos hlast)
  obtain ⟨encoded, hencoded⟩ := Option.isSome_iff_exists.mp hf.2.1
  have hencode := (hf.encodeFrame rq hencoded h).trans (if_pos hlast)
  obtain ⟨data, hrepair⟩ := h.closing_packets hrq encoded
  generalize RaptorQFecEncoder.numRepair (s.enc.frameInBlock.toNat + 1) s.enc.profile.fecRatio = count
    at hevent hrepair
  generalize hpkt : CallEncoder.sourcePacket { s.enc with cnCounter := 0 } encoded = pkt at hencode
  generalize ((s.enc.withSymbol encoded).closeBlock rq).2 = repairs at hencode hrepair
  have hlabel := hf.closing_labels encoded hrepair
  rw [hpkt] at hlabel
  obtain ⟨hnew, hsymbols⟩ := tagged_packets hf.1 hlabel h.blockId
  have hstep : s.step rq (.encodeFrame frame) =
      ⟨((s.enc.withSymbol encoded).closeBlock rq).1, s.closed + 1, s.time + 1,
        s.sent ++ (pkt :: repairs).zipIdx.map fun (p, i) => s.tag frame p i⟩ := by
    simp only [step, hencode, Option.getD_some]
    congr 1
    exact if_neg (blockId_moves s.enc.blockId)
  rw [Simulates, hstep, hevent]
  constructor
  · refine ⟨?_, rfl, h.perBlock, rfl, Or.inl rfl, ?_⟩
    · exact (congrArg (· + 1) h.blockId).trans (UInt8.ofNat_add _ _).symm
    · intro p hp hpf
      rcases List.mem_append.mp hp with hp | hp
      · exact h.labelled p hp hpf
      · exact (hnew p hp).2
  · have hview := view_append ((s.enc.withSymbol encoded).closeBlock rq).1 (s.closed + 1) (s.time + 1)
      (fun p hp => (hnew p hp).1) (s := s)
    have hcount : (pkt :: repairs).length = count + 1 := by
      simp only [hrepair, List.length_cons, List.length_map, List.length_range]
    rw [hsymbols, hcount, spoken_symbols] at hview
    simp only [view, BlockLabels.step] at hview ⊢
    rw [hview]
    rfl

theorem simulates_step (hrq : rq.Documented) (h : Aligned s) (op : EncoderOp) :
    Simulates rq s op := by
  cases op with
  | encodeFrame frame =>
      by_cases hf : s.SendsSymbol frame
      · by_cases hlast : s.enc.profile.framesPerBlock ≤ s.enc.frameInBlock + 1
        · exact simulates_closing hrq hf h hlast
        · exact simulates_data hf h hlast
      · cases hsilent : s.enc.suppressionEnabled && frame.silent with
        | true => exact simulates_silent h hsilent
        | false =>
            have hnoise : ¬ s.SendsNoise frame :=
              fun hs => Bool.false_ne_true (hsilent.symm.trans hs.1)
            cases hencoded : frame.encoded with
            | none =>
                have hencode := @CallEncoder.encodeFrame_failed rq _ _ hsilent hencoded
                exact simulates_quiet h (by exact ⟨rfl, rfl, rfl, rfl⟩) rfl hencode hnoise hf
            | some encoded =>
                cases hopus : s.enc.profile.codec.isOpus with
                | true => exact simulates_opus h hsilent hencoded hopus
                | false =>
                    have hfull : s.enc.profile.framesPerBlock ≤ s.enc.frameInBlock := by
                      by_contra hroom
                      exact hf ⟨hsilent, by rw [hencoded]; rfl, hopus, UInt8.not_le.mp hroom⟩
                    have hfec : s.enc.fecEnc.framesPerBlock ≤ s.enc.fecEnc.sourceSymbols.length := by
                      rw [h.perBlock, h.symbols]
                      exact UInt8.le_iff_toNat_le.mp hfull
                    have hencode := @CallEncoder.encodeFrame_full rq _ _ _ hsilent hencoded hopus hfec
                    exact simulates_quiet h (by exact ⟨rfl, rfl, rfl, rfl⟩) rfl hencode hnoise hf
  | setProfile profile accepted =>
      cases accepted with
      | true => exact ⟨⟨h.blockId, rfl, rfl, rfl, Or.inl rfl, h.labelled⟩, rfl⟩
      | false => exact ⟨⟨h.blockId, h.symbols, h.perBlock, h.noKeyframe, h.inBlock, h.labelled⟩, rfl⟩
  | setPendingQualityReport report =>
      exact ⟨⟨h.blockId, h.symbols, h.perBlock, h.noKeyframe, h.inBlock, h.labelled⟩, rfl⟩

/-! ## Every run -/

theorem forall_mem_view {P : BlockLabels.Symbol → Prop} :
    (∀ x ∈ (view s).sent, P x) ↔ ∀ p ∈ s.sent, p.fed = true → P p.symbol := by
  constructor
  · exact fun hall p hp hpf => hall _ (mem_view.mpr ⟨p, hp, hpf, rfl⟩)
  · intro hall x hx
    obtain ⟨p, hp, hpf, rfl⟩ := mem_view.mp hx
    exact hall p hp hpf

theorem begins_iff : ((view s).next = 0 → ∀ x ∈ (view s).sent, x.block ≠ (view s).block) ↔
    (s.enc.frameInBlock = 0 → ∀ p ∈ s.sent, p.fed = true → p.block ≠ s.closed) := by
  rw [forall_mem_view, ← UInt8.toNat_inj]
  exact Iff.rfl

theorem separate_iff (op : EncoderOp) :
    BlockLabels.Separate 256 (view s) (s.labelEvent op) ↔ KeepsLabels s op := by
  cases op with
  | setProfile profile accepted =>
      cases accepted with
      | true => exact Iff.rfl
      | false => exact Iff.rfl
  | setPendingQualityReport report => exact Iff.rfl
  | encodeFrame frame =>
      rw [KeepsLabels]
      by_cases hsends : s.SendsSymbol frame
      · have hnoise : ¬ s.SendsNoise frame :=
          fun hs => Bool.false_ne_true (hsends.1.symm.trans hs.1)
        obtain ⟨_, hlt⟩ := hsends.toNat_next
        have hmax : s.enc.profile.framesPerBlock.toNat < 256 := s.enc.profile.framesPerBlock.toNat_lt
        rw [hsends.labelEvent, imp_iff_right hsends, ← begins_iff]
        refine Iff.trans ?_ (and_iff_right fun hn => absurd hn hnoise).symm
        by_cases hlast : s.enc.profile.framesPerBlock ≤ s.enc.frameInBlock + 1
        · have heq : s.enc.profile.framesPerBlock.toNat = s.enc.frameInBlock.toNat + 1 := by
            have hle := UInt8.le_iff_toNat_le.mp hlast
            rw [hsends.toNat_next.1] at hle
            omega
          rw [if_pos hlast, imp_iff_right heq, heq, and_comm]
          exact Iff.rfl
        · have hne : ¬ s.enc.profile.framesPerBlock.toNat = s.enc.frameInBlock.toNat + 1 := by
            rw [UInt8.le_iff_toNat_le, hsends.toNat_next.1] at hlast
            omega
          rw [if_neg hlast, and_comm]
          exact and_congr (iff_of_true (hlt.trans hmax) fun heq => absurd heq hne) Iff.rfl
      · by_cases hnoise : s.SendsNoise frame
        · rw [labelEvent, if_pos hnoise, imp_iff_right hnoise]
          refine Iff.trans ?_ (and_iff_left fun hs => absurd hs hsends).symm
          exact forall_mem_view
        · rw [labelEvent, if_neg hnoise, if_neg hsends]
          exact iff_of_true trivial ⟨fun hn => absurd hn hnoise, fun hs => absurd hs hsends⟩

/-- The labels identify the symbols throughout exactly the runs in which comfort
noise and frames do not share a block, no block is begun twice under one number,
and no block and its repair symbols are more than 256. -/
theorem labels_identify_iff (hrq : rq.Documented) (config : CallConfig) (ops : List EncoderOp) :
    Throughout (step rq) LabelsIdentify (start config) ops ↔
      EachStep (step rq) KeepsLabels (start config) ops := by
  refine throughout_iff_eachStep (I := fun s => Aligned s ∧ BlockLabels.Inv 256 (view s)) ?_ ?_
    ⟨start_aligned config, BlockLabels.start_inv⟩ (fun _ hp => absurd hp List.not_mem_nil)
  · rintro s op ⟨haligned, hinv⟩ hold hnew
    obtain ⟨hnext, hview⟩ := simulates_step hrq haligned op
    rw [labelsIdentify_iff haligned] at hold
    rw [labelsIdentify_iff hnext, hview, BlockLabels.identifies_step hinv (by decide) hold] at hnew
    rw [hview]
    exact ⟨hnext, BlockLabels.inv_step hinv hnew⟩
  · rintro s op ⟨haligned, hinv⟩ hold
    obtain ⟨hnext, hview⟩ := simulates_step hrq haligned op
    rw [labelsIdentify_iff haligned] at hold
    rw [labelsIdentify_iff hnext, hview, BlockLabels.identifies_step hinv (by decide) hold,
      separate_iff]

instance KeepsLabels.decidable (s : Sending) : (op : EncoderOp) → Decidable (s.KeepsLabels op)
  | .encodeFrame _ => inferInstanceAs (Decidable (_ ∧ _))
  | .setProfile _ _ => isTrue trivial
  | .setPendingQualityReport _ => isTrue trivial

/-- Two blocks of eight frames, each with its repair symbols, and comfort noise after them. -/
theorem two_blocks_identified : Throughout (step .parity) LabelsIdentify
    (start { CallConfig.default with profile := .catastrophic })
    (List.replicate 16 (.encodeFrame ⟨false, some [7]⟩) ++
      List.replicate 10 (.encodeFrame ⟨true, none⟩)) :=
  (labels_identify_iff RaptorQ.parity_documented _ _).mpr (by decide +kernel)

/-- Comfort noise after the first frame of a block takes the frame's label. -/
theorem noise_takes_label : ¬ Throughout (step .parity) LabelsIdentify
    (start { CallConfig.default with profile := .catastrophic })
    (.encodeFrame ⟨false, some [7]⟩ :: List.replicate 10 (.encodeFrame ⟨true, none⟩)) := by
  intro h
  have hsent := h.last
  generalize hs : run (step .parity) (start { CallConfig.default with profile := .catastrophic })
    (.encodeFrame ⟨false, some [7]⟩ :: List.replicate 10 (.encodeFrame ⟨true, none⟩)) = s at hsent
  obtain ⟨p, q, hpq, hp, hq⟩ : ∃ p q, s.sent = [p, q] ∧
      (p.fed = true ∧ p.block = 0 ∧ p.packet.header.fecBlock = 0 ∧ p.content = .data 0) ∧
      (q.fed = true ∧ q.block = 0 ∧ q.packet.header.fecBlock = 0 ∧ q.content = .filler) := by
    subst hs
    exact ⟨_, _, rfl, ⟨rfl, rfl, rfl, rfl⟩, ⟨rfl, rfl, rfl, rfl⟩⟩
  obtain ⟨hpf, hpb, hpl, hpc⟩ := hp
  obtain ⟨hqf, hqb, hql, hqc⟩ := hq
  have heq := hsent p (by rw [hpq]; exact List.mem_cons_self) q
    (by rw [hpq]; exact List.mem_cons_of_mem _ List.mem_cons_self) hpf hqf (by omega) (by omega)
    (hpl.trans hql.symm)
  rw [hpc, hqc] at heq
  cases heq

end Sending
end Wzp.Client
