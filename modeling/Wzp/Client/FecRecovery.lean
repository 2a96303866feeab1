import Wzp.Client.CallEncoder
import Wzp.Client.FecLabels

/-!
# FEC recovery

What the receiver's FEC decoder makes of the packets of a block that reach it,
whichever of them are lost and in whatever order they come.
-/
namespace Wzp.Client
open Bytes Proto Fec Runs

namespace Sending

/-- Frames that are not silent, and reports to go with them. -/
def Speech (config : CallConfig) : EncoderOp → Prop
  | .encodeFrame frame => (config.suppressionEnabled && frame.silent) = false
  | .setProfile _ _ => False
  | .setPendingQualityReport _ => True

/-- The encoded frames of a block, in order. -/
def blockFrames (s : Sending) (block : ℕ) : List Buf :=
  (s.sent.filter fun p => p.block = block && !p.packet.header.isRepair).map (·.packet.payload)

end Sending

/-- The receiver after packets have arrived, each with its time. -/
def ingestAll (config : CallConfig) (arrivals : List (ℕ × SentPacket)) : CallDecoder :=
  arrivals.foldl (fun dec a => dec.ingest a.1 a.2.packet) (.new config)

/-- The packets of one block that have arrived. -/
def survivors (arrivals : List (ℕ × SentPacket)) (block : ℕ) : List (ℕ × SentPacket) :=
  arrivals.filter fun a => a.2.block = block

/-- If as many packets of the block arrive as it has frames, decoding gives its
frames. -/
def Recovers (rq : RaptorQ) (config : CallConfig) (s : Sending) (arrivals : List (ℕ × SentPacket))
    (block now : ℕ) : Prop :=
  config.profile.framesPerBlock.toNat ≤ (survivors arrivals block).length →
    ((ingestAll config arrivals).fecDec.tryDecode rq now (UInt16.ofNat (block % 256))).1 =
      some (s.blockFrames block)

/-! ## The decoder -/

section
variable {rq : RaptorQ} {config : CallConfig}

/-- The packets that are filed under a block number. -/
def filed (blockId : UInt16) (packets : List MediaPacket) : List EncodingPacket :=
  (packets.filter fun p => p.header.fecBlock = blockId).map fun p =>
    ⟨blockId.toUInt8, (blockId >>> 8).toNat, padded AdaptiveFec.defaultSymbolSize p.payload⟩

/-- The blocks of a decoder that was asked for none of them yet. -/
def collected (perBlock : ℕ) (packets : List MediaPacket) (blockId : UInt16) : Option BlockState :=
  if filed blockId packets = [] then none
  else some ⟨some perBlock, filed blockId packets, AdaptiveFec.defaultSymbolSize, false, none, none⟩

theorem filed_append_singleton (blockId : UInt16) (packets : List MediaPacket) (p : MediaPacket) :
    filed blockId (packets ++ [p]) = if p.header.fecBlock = blockId then
      filed blockId packets ++ [⟨blockId.toUInt8, (blockId >>> 8).toNat,
        padded AdaptiveFec.defaultSymbolSize p.payload⟩]
    else filed blockId packets := by
  by_cases h : p.header.fecBlock = blockId
  · simp only [filed, List.filter_append, List.filter_cons, h, decide_true, if_true, List.filter_nil,
      List.map_append, List.map_cons, List.map_nil]
  · simp only [filed, List.filter_append, List.filter_cons, h, decide_false, Bool.false_eq_true,
      if_false, List.filter_nil, List.append_nil]

theorem addSymbol_collected {perBlock : ℕ} {dec : RaptorQFecDecoder} {packets : List MediaPacket}
    (hsize : dec.symbolSize = AdaptiveFec.defaultSymbolSize) (hper : dec.framesPerBlock = perBlock)
    (hblocks : ∀ b, dec.blocks b = collected perBlock packets b) (now : ℕ) (p : MediaPacket) :
    let dec' := dec.addSymbol now p.header.fecBlock (p.header.fecBlock >>> 8) p.payload
    dec'.symbolSize = AdaptiveFec.defaultSymbolSize ∧ dec'.framesPerBlock = perBlock ∧
      ∀ b, dec'.blocks b = collected perBlock (packets ++ [p]) b := by
  have hblock : dec.getOrCreateBlock p.header.fecBlock =
      ⟨some perBlock, filed p.header.fecBlock packets, AdaptiveFec.defaultSymbolSize, false, none,
        none⟩ := by
    rw [RaptorQFecDecoder.getOrCreateBlock, hblocks, collected, hsize, hper]
    split
    · rename_i hnil
      rw [hnil]
      rfl
    · rfl
  simp only [RaptorQFecDecoder.addSymbol, hblock, Bool.false_and, Bool.false_eq_true, if_false, hsize]
  refine ⟨trivial, hper, ?_⟩
  intro b
  rw [collected, filed_append_singleton]
  by_cases hb : p.header.fecBlock = b
  · subst hb
    rw [Function.update_self, if_pos rfl, if_neg (List.append_ne_nil_of_right_ne_nil _ (by simp))]
  · rw [Function.update_of_ne (Ne.symm hb), if_neg hb, hblocks, collected]

theorem ingestAll_collected (config : CallConfig) {arrivals : List (ℕ × SentPacket)}
    (hfed : ∀ a ∈ arrivals, a.2.fed = true) :
    ∀ b, (ingestAll config arrivals).fecDec.blocks b =
      collected config.profile.framesPerBlock.toNat (arrivals.map fun a => a.2.packet) b := by
  suffices h : (ingestAll config arrivals).fecDec.symbolSize = AdaptiveFec.defaultSymbolSize ∧
      (ingestAll config arrivals).fecDec.framesPerBlock = config.profile.framesPerBlock.toNat ∧
      ∀ b, (ingestAll config arrivals).fecDec.blocks b =
        collected config.profile.framesPerBlock.toNat (arrivals.map fun a => a.2.packet) b from h.2.2
  induction arrivals using List.reverseRecOn with
  | nil => exact ⟨rfl, rfl, fun _ => rfl⟩
  | append_singleton arrivals a ih =>
      obtain ⟨hsize, hper, hblocks⟩ := ih fun x hx => hfed x (List.mem_append_left _ hx)
      have hcodec : a.2.packet.header.codecId.isOpus = false := by
        have hf := hfed a (List.mem_append_right _ List.mem_cons_self)
        rwa [SentPacket.fed, Bool.not_eq_true'] at hf
      have hstep : (ingestAll config (arrivals ++ [a])).fecDec =
          (ingestAll config arrivals).fecDec.addSymbol a.1 a.2.packet.header.fecBlock
            (a.2.packet.header.fecBlock >>> 8) a.2.packet.payload := by
        simp only [ingestAll, List.foldl_append, List.foldl_cons, List.foldl_nil, CallDecoder.ingest,
          hcodec, Bool.false_eq_true, if_false]
      rw [hstep, List.map_append]
      exact addSymbol_collected hsize hper hblocks a.1 a.2.packet

theorem shift_low_byte (n : ℕ) : (UInt16.ofNat (n % 256) >>> 8).toNat = 0 := by
  rw [UInt16.toNat_shiftRight, Nat.shiftRight_eq_div_pow]
  simp only [UInt16.toNat_ofNat', UInt16.toNat_ofNat, Nat.reducePow, Nat.reduceMod]
  omega

/-- All that is filed under a block number has the symbol number zero. -/
theorem filed_esi {packets : List MediaPacket} {n : ℕ} {x : EncodingPacket}
    (hx : x ∈ filed (UInt16.ofNat (n % 256)) packets) : x.encodingSymbolId = 0 := by
  obtain ⟨p, _, rfl⟩ := List.mem_map.mp hx
  exact shift_low_byte n

theorem length_padded (data : Buf) : (padded AdaptiveFec.defaultSymbolSize data).length = 256 := by
  have hsize : AdaptiveFec.defaultSymbolSize.toNat = 256 := rfl
  simp only [padded, hsize, List.length_append, List.length_take, List.length_replicate]
  omega

/-- Blocks of two frames or more are not decoded. -/
theorem decode_none (hrq : rq.Documented) {perBlock : ℕ} (hper : 2 ≤ perBlock)
    (packets : List MediaPacket) (n : ℕ) (block : UInt8) :
    rq.decode block AdaptiveFec.defaultSymbolSize
      (perBlock * AdaptiveFec.defaultSymbolSize.toNat)
      (filed (UInt16.ofNat (n % 256)) packets) = none := by
  refine hrq.tooFew _ _ _ _ (by decide) ?_
  have hsub : ((filed (UInt16.ofNat (n % 256)) packets).map
      EncodingPacket.encodingSymbolId).dedup ⊆ [0] := by
    intro esi hesi
    obtain ⟨x, hx, rfl⟩ := List.mem_map.mp (List.mem_dedup.mp hesi)
    exact List.mem_singleton.mpr (filed_esi hx)
  have hle := ((List.nodup_dedup _).subperm hsub).length_le
  rw [List.length_singleton] at hle
  omega

/-- A block of one frame is decoded to the first packet filed under it. -/
theorem decode_one (hrq : rq.Documented) {packets : List MediaPacket} {n : ℕ}
    {x : EncodingPacket} {rest : List EncodingPacket}
    (hfiled : filed (UInt16.ofNat (n % 256)) packets = x :: rest) (block : UInt8) :
    rq.decode block AdaptiveFec.defaultSymbolSize (1 * AdaptiveFec.defaultSymbolSize.toNat)
      (filed (UInt16.ofNat (n % 256)) packets) = some x.data := by
  have hesi : x.encodingSymbolId = 0 := filed_esi (by rw [hfiled]; exact List.mem_cons_self)
  have hlen : x.data.length = AdaptiveFec.defaultSymbolSize.toNat := by
    have hx : x ∈ filed (UInt16.ofNat (n % 256)) packets := by
      rw [hfiled]
      exact List.mem_cons_self
    obtain ⟨p, _, rfl⟩ := List.mem_map.mp hx
    exact length_padded p.payload
  have hdecode := hrq.systematic block AdaptiveFec.defaultSymbolSize
    (filed (UInt16.ofNat (n % 256)) packets) [x.data] (by decide) ?_ ?_
  · rwa [List.length_singleton, List.flatten_singleton] at hdecode
  · intro i hi
    obtain rfl : i = 0 := Nat.lt_one_iff.mp hi
    rw [symbolAt, hfiled, List.find?_cons_of_pos (by rw [hesi]; rfl)]
    rfl
  · intro symbol hmem
    obtain rfl := List.mem_singleton.mp hmem
    exact hlen

end

/-! ## The encoder -/

section
variable {rq : RaptorQ} {config : CallConfig}

/-- The encoder keeps its profile, and all it sends are Codec2 packets. -/
structure SpeechInv (config : CallConfig) (s : Sending) : Prop where
  profile : s.enc.profile = config.profile
  suppression : s.enc.suppressionEnabled = config.suppressionEnabled
  perBlock : s.enc.fecEnc.framesPerBlock = config.profile.framesPerBlock.toNat
  sent : ∀ p ∈ s.sent, p.packet.header.codecId = config.profile.codec ∧
    0 < config.profile.framesPerBlock.toNat

theorem closeBlock_codec (enc : CallEncoder) {p : MediaPacket} (hp : p ∈ (enc.closeBlock rq).2) :
    p.header.codecId = enc.profile.codec := by
  obtain ⟨x, _, rfl⟩ := List.mem_map.mp hp
  rfl

theorem encodeFrame_speech (rq : RaptorQ) {enc : CallEncoder} {frame : CapturedFrame}
    (hspoken : (enc.suppressionEnabled && frame.silent) = false)
    (hcodec : enc.profile.codec.isOpus = false) :
    let enc' := (enc.encodeFrame rq frame).1
    enc'.profile = enc.profile ∧ enc'.suppressionEnabled = enc.suppressionEnabled ∧
      enc'.fecEnc.framesPerBlock = enc.fecEnc.framesPerBlock ∧
      ∀ p ∈ (enc.encodeFrame rq frame).2.getD [], p.header.codecId = enc.profile.codec ∧
        0 < enc.fecEnc.framesPerBlock := by
  cases hencoded : frame.encoded with
  | none =>
      rw [CallEncoder.encodeFrame_failed hspoken hencoded]
      exact ⟨rfl, rfl, rfl, fun p hp => absurd hp List.not_mem_nil⟩
  | some encoded =>
      by_cases hfull : enc.fecEnc.framesPerBlock ≤ enc.fecEnc.sourceSymbols.length
      · rw [CallEncoder.encodeFrame_full hspoken hencoded hcodec hfull]
        exact ⟨rfl, rfl, rfl, fun p hp => absurd hp List.not_mem_nil⟩
      · have hpos : 0 < enc.fecEnc.framesPerBlock := by omega
        rw [CallEncoder.encodeFrame_codec2 hspoken hencoded hcodec hfull]
        split
        · refine ⟨rfl, rfl, rfl, fun p hp => ⟨?_, hpos⟩⟩
          rcases List.mem_cons.mp hp with rfl | hp
          · rfl
          · exact closeBlock_codec (enc.withSymbol encoded) hp
        · refine ⟨rfl, rfl, rfl, fun p hp => ⟨?_, hpos⟩⟩
          obtain rfl := List.mem_singleton.mp hp
          rfl

theorem speechInv_step (hcodec : config.profile.codec.isOpus = false) {s : Sending}
    (h : SpeechInv config s) {op : EncoderOp} (hop : Sending.Speech config op) :
    SpeechInv config (s.step rq op) := by
  cases op with
  | encodeFrame frame =>
      obtain ⟨hprofile, hsuppression, hper, hpackets⟩ := encodeFrame_speech rq
        (show (s.enc.suppressionEnabled && frame.silent) = false from h.suppression ▸ hop)
        (h.profile ▸ hcodec)
      refine ⟨hprofile.trans h.profile, hsuppression.trans h.suppression, hper.trans h.perBlock, ?_⟩
      intro p hp
      rcases List.mem_append.mp hp with hp | hp
      · exact h.sent p hp
      · obtain ⟨⟨pkt, i⟩, hmem, rfl⟩ := List.mem_map.mp hp
        have hpkt : pkt ∈ (s.enc.encodeFrame rq frame).2.getD [] := List.fst_mem_of_mem_zipIdx hmem
        obtain ⟨hc, hpos⟩ := hpackets pkt hpkt
        rw [h.profile] at hc
        rw [h.perBlock] at hpos
        refine ⟨?_, hpos⟩
        simp only [Sending.tag]
        split
        · exact hc
        · exact hc
  | setProfile profile accepted => exact absurd hop id
  | setPendingQualityReport report => exact ⟨h.profile, h.suppression, h.perBlock, h.sent⟩

theorem speechInv_run (rq : RaptorQ) (hcodec : config.profile.codec.isOpus = false) {s : Sending}
    (h : SpeechInv config s) {ops : List EncoderOp} (hops : ∀ op ∈ ops, Sending.Speech config op) :
    SpeechInv config (run (Sending.step rq) s ops) := by
  induction ops generalizing s with
  | nil => exact h
  | cons op ops ih =>
      exact ih (speechInv_step hcodec h (hops op List.mem_cons_self))
        fun x hx => hops x (List.mem_cons_of_mem _ hx)

theorem start_speechInv (config : CallConfig) : SpeechInv config (.start config) :=
  ⟨rfl, rfl, rfl, fun _ hp => absurd hp List.not_mem_nil⟩

/-- The first packet to arrive under the number of a block. -/
def firstUnder (arrivals : List (ℕ × SentPacket)) (block : ℕ) : Option MediaPacket :=
  (arrivals.map fun a => a.2.packet).find? fun p => p.header.fecBlock = UInt16.ofNat (block % 256)

theorem filed_of_firstUnder (arrivals : List (ℕ × SentPacket)) (block : ℕ) :
    (filed (UInt16.ofNat (block % 256)) (arrivals.map fun a => a.2.packet)).head? =
      (firstUnder arrivals block).map fun p => ⟨(UInt16.ofNat (block % 256)).toUInt8,
        (UInt16.ofNat (block % 256) >>> 8).toNat, padded AdaptiveFec.defaultSymbolSize p.payload⟩ := by
  rw [filed, List.head?_map, List.head?_filter]
  rfl

theorem tryDecode_collected (rq : RaptorQ) (now : ℕ) {dec : RaptorQFecDecoder} {perBlock : ℕ}
    {packets : List MediaPacket} {b : UInt16} (h : dec.blocks b = collected perBlock packets b) :
    (dec.tryDecode rq now b).1 = if filed b packets = [] then none
      else (rq.decode b.toUInt8 AdaptiveFec.defaultSymbolSize
        (perBlock * AdaptiveFec.defaultSymbolSize.toNat) (filed b packets)).map
          (RaptorQFecDecoder.splitFrames AdaptiveFec.defaultSymbolSize perBlock) := by
  rw [collected] at h
  by_cases hnil : filed b packets = []
  · rw [if_pos hnil] at h ⊢
    simp only [RaptorQFecDecoder.tryDecode, h]
  · rw [if_neg hnil] at h ⊢
    simp only [RaptorQFecDecoder.tryDecode, h, Option.getD_some]
    split
    · rename_i hdecode
      rw [hdecode]
      rfl
    · rename_i data hdecode
      rw [hdecode]
      rfl

theorem splitFrames_one {data : Buf} (h : data.length = 256) :
    RaptorQFecDecoder.splitFrames AdaptiveFec.defaultSymbolSize 1 data = [unprefixed data] := by
  have hlong : ¬ data.length < 0 + lenPrefix := by
    rw [h]
    decide
  simp only [RaptorQFecDecoder.splitFrames, List.range_one, List.map_cons, List.map_nil,
    if_neg hlong, Nat.zero_mul, List.drop_zero]

theorem long_block_undecoded (hrq : rq.Documented) {arrivals : List (ℕ × SentPacket)}
    (hfed : ∀ a ∈ arrivals, a.2.fed = true) (hlong : 2 ≤ config.profile.framesPerBlock.toNat)
    (block now : ℕ) :
    ((ingestAll config arrivals).fecDec.tryDecode rq now (UInt16.ofNat (block % 256))).1 = none := by
  rw [tryDecode_collected rq now (ingestAll_collected config hfed (UInt16.ofNat (block % 256))),
    decode_none hrq hlong]
  exact ite_self none

/-- A block is recovered only if it is one frame long and the first packet under
its number, read as a symbol with a length in front, happens to hold the frame. -/
theorem fec_recovers_iff (hrq : rq.Documented) (hcodec : config.profile.codec.isOpus = false)
    {ops : List EncoderOp} (hops : ∀ op ∈ ops, Sending.Speech config op)
    {arrivals : List (ℕ × SentPacket)}
    (harrived : (arrivals.map Prod.snd).Subperm (run (Sending.step rq) (.start config) ops).sent)
    (block now : ℕ) :
    Recovers rq config (run (Sending.step rq) (.start config) ops) arrivals block now ↔
      (survivors arrivals block).length < config.profile.framesPerBlock.toNat ∨
      config.profile.framesPerBlock.toNat = 1 ∧ ∃ p, firstUnder arrivals block = some p ∧
        (run (Sending.step rq) (.start config) ops).blockFrames block =
          [unprefixed (padded AdaptiveFec.defaultSymbolSize p.payload)] := by
  have hinv := speechInv_run rq hcodec (start_speechInv config) hops
  have hsent : ∀ a ∈ arrivals, a.2.packet.header.codecId = config.profile.codec ∧
      0 < config.profile.framesPerBlock.toNat := fun a ha =>
    hinv.sent a.2 (harrived.subset (List.mem_map_of_mem ha))
  have hfed : ∀ a ∈ arrivals, a.2.fed = true := by
    intro a ha
    rw [SentPacket.fed, (hsent a ha).1, hcodec]
    rfl
  have hdecode := tryDecode_collected rq now
    (ingestAll_collected config hfed (UInt16.ofNat (block % 256)))
  have hhead := filed_of_firstUnder arrivals block
  rw [Recovers, hdecode]
  generalize (run (Sending.step rq) (.start config) ops).blockFrames block = frames
  by_cases hfew : (survivors arrivals block).length < config.profile.framesPerBlock.toNat
  · exact iff_of_true (fun hle => absurd hfew (Nat.not_lt.mpr hle)) (Or.inl hfew)
  · rw [imp_iff_right (Nat.le_of_not_lt hfew), or_iff_right hfew]
    generalize config.profile.framesPerBlock.toNat = perBlock at hsent ⊢
    cases hfiled : filed (UInt16.ofNat (block % 256)) (arrivals.map fun a => a.2.packet) with
    | nil =>
        rw [hfiled, List.head?_nil, eq_comm, Option.map_eq_none_iff] at hhead
        refine iff_of_false ?_ ?_
        · rw [if_pos rfl]
          exact (Option.some_ne_none _).symm
        · rintro ⟨_, p, hp, _⟩
          exact Option.some_ne_none p (hp.symm.trans hhead)
    | cons x rest =>
        rw [hfiled, List.head?_cons, eq_comm, Option.map_eq_some_iff] at hhead
        obtain ⟨p, hp, hx⟩ := hhead
        have hpos : 0 < perBlock := by
          obtain ⟨a, ha, _⟩ := List.mem_map.mp (List.mem_of_find?_eq_some hp)
          exact (hsent a ha).2
        rw [if_neg (List.cons_ne_nil _ _), ← hfiled]
        rcases Nat.lt_or_ge 1 perBlock with hlong | hshort
        · rw [decode_none hrq hlong]
          refine iff_of_false (Option.some_ne_none _).symm ?_
          exact fun hone => Nat.ne_of_gt hlong hone.1
        · obtain rfl : perBlock = 1 := by omega
          have hdata : x.data = padded AdaptiveFec.defaultSymbolSize p.payload := by rw [← hx]
          rw [decode_one hrq hfiled, Option.map_some, hdata,
            splitFrames_one (length_padded p.payload), Option.some.injEq]
          constructor
          · exact fun heq => ⟨rfl, p, hp, heq.symm⟩
          · rintro ⟨_, q, hq, heq⟩
            obtain rfl := Option.some.inj (hp.symm.trans hq)
            exact heq.symm

/-- Codec2 frames, eight to a block. -/
def eightFrames : List EncoderOp :=
  List.replicate 8 (.encodeFrame ⟨false, some [1, 2, 3, 4, 5, 6]⟩)

def catastrophicConfig : CallConfig := { CallConfig.default with profile := .catastrophic }

def eightFramesSent : Sending :=
  run (Sending.step .parity) (.start catastrophicConfig) eightFrames

theorem eightFrames_speech : ∀ op ∈ eightFrames, Sending.Speech catastrophicConfig op := by
  intro op hop
  obtain rfl := List.eq_of_mem_replicate hop
  rfl

theorem eight_frames_recovered_iff :
    Recovers .parity catastrophicConfig eightFramesSent
        (eightFramesSent.sent.map (Prod.mk 0)) 0 0 ↔
      (survivors (eightFramesSent.sent.map (Prod.mk 0)) 0).length < 8 ∨
      8 = 1 ∧ ∃ p, firstUnder (eightFramesSent.sent.map (Prod.mk 0)) 0 = some p ∧
        eightFramesSent.blockFrames 0 =
          [unprefixed (padded AdaptiveFec.defaultSymbolSize p.payload)] := by
  refine fec_recovers_iff RaptorQ.parity_documented rfl eightFrames_speech ?_ 0 0
  rw [List.map_map]
  exact (List.map_id _).symm ▸ List.Subperm.refl _

/-- All eight frames of a block arrive in order, and it is not recovered. -/
theorem eight_frames_lost : ¬ Recovers .parity catastrophicConfig eightFramesSent
    ((eightFramesSent.sent.take 8).map (Prod.mk 0)) 0 0 := by
  intro h
  have hinv : SpeechInv catastrophicConfig eightFramesSent :=
    speechInv_run .parity rfl (start_speechInv _) eightFrames_speech
  have hsome := h (by decide)
  rw [long_block_undecoded RaptorQ.parity_documented ?_ (by decide)] at hsome
  · exact Option.some_ne_none _ hsome.symm
  · intro a ha
    obtain ⟨p, hp, rfl⟩ := List.mem_map.mp ha
    rw [SentPacket.fed, (hinv.sent p (List.mem_of_mem_take hp)).1]
    rfl

/-- No frame is read back from its own packet, whose payload has no length in front. -/
theorem unprefixed_own_packet {frame : Buf} (hne : frame ≠ []) (hlen : frame.length ≤ 254) :
    unprefixed (padded AdaptiveFec.defaultSymbolSize frame) ≠ frame := by
  have hsize : AdaptiveFec.defaultSymbolSize.toNat = 256 := rfl
  have hget : ∀ i, (padded AdaptiveFec.defaultSymbolSize frame).getD i 0 = frame.getD i 0 := by
    intro i
    simp only [padded, hsize, List.take_of_length_le (show frame.length ≤ 256 by omega),
      List.getD_eq_getElem?_getD, List.getElem?_append, List.getElem?_replicate]
    split
    · rfl
    · rename_i hi
      rw [List.getElem?_eq_none (Nat.le_of_not_lt hi)]
      split
      · rfl
      · rfl
  intro heq
  -- reading behind the prefix repeats the frame two bytes on, down from its zero padding
  have hshift : ∀ i, i < frame.length → frame.getD i 0 = frame.getD (i + 2) 0 := by
    intro i hi
    have hi' : i < (unprefixed (padded AdaptiveFec.defaultSymbolSize frame)).length := by
      rw [heq]
      exact hi
    simp only [unprefixed, List.length_take] at hi'
    rw [← hget (i + 2)]
    conv_lhs => rw [← heq]
    rw [unprefixed, List.getD_eq_getElem?_getD, List.getElem?_take_of_lt (by omega),
      List.getElem?_drop, List.getD_eq_getElem?_getD, Nat.add_comm]
    rfl
  have hzero : ∀ k i, frame.length ≤ i + k → frame.getD i 0 = 0 := by
    intro k
    induction k with
    | zero =>
        intro i hi
        rw [Nat.add_zero] at hi
        rw [List.getD_eq_getElem?_getD, List.getElem?_eq_none hi]
        rfl
    | succ k ih =>
        intro i hi
        rcases Nat.lt_or_ge i frame.length with hlt | hge
        · rw [hshift i hlt]
          exact ih (i + 2) (by omega)
        · rw [List.getD_eq_getElem?_getD, List.getElem?_eq_none hge]
          rfl
  have hnil : unprefixed (padded AdaptiveFec.defaultSymbolSize frame) = [] := by
    rw [unprefixed, hget, hget, hzero frame.length 0 (Nat.le_add_left _ _),
      hzero frame.length 1 (Nat.le_add_left _ _)]
    exact List.take_zero
  exact hne (heq.symm.trans hnil)

end
end Wzp.Client
