import Wzp.Client.FecLabels
import Wzp.Lib.Mailbox
import Wzp.Lib.SerialNumber

/-!
# The books of an encoder

The sequence number, the time, the place in the FEC block and the report that waits are moved
on in different branches. They stay together while every profile has frames in its blocks.
-/
namespace Wzp.Fec

def RaptorQFecEncoder.currentBlockSize (enc : RaptorQFecEncoder) : ℕ := enc.sourceSymbols.length

end Wzp.Fec
namespace Wzp.Client
open Bytes Proto Fec Runs

/-! ## One frame -/

namespace CallEncoder
variable {rq : RaptorQ} {enc enc' : CallEncoder} {frame : CapturedFrame} {encoded : Buf}
  {packets : List MediaPacket}

/-- The frame is encoded, not suppressed. -/
def speaks (enc : CallEncoder) (frame : CapturedFrame) : Bool :=
  !(enc.suppressionEnabled && frame.silent)

/-- The FEC encoder is as full as the block, and the block has room. -/
structure InStep (enc : CallEncoder) : Prop where
  inBlock : enc.frameInBlock.toNat = enc.fecEnc.currentBlockSize
  room : enc.frameInBlock < enc.profile.framesPerBlock
  perBlock : enc.fecEnc.framesPerBlock = enc.profile.framesPerBlock.toNat

/-- Little time has passed since a packet at `last`: one frame, and the silent ones since the
last comfort noise. -/
def Paced (last : UInt32) (enc : CallEncoder) : Prop :=
  (enc.timestampMs - last).toNat ≤ 255 * (1 + enc.cnCounter.toNat % 10)

/-- What a frame gives out, and what it leaves behind. -/
structure Emits (enc enc' : CallEncoder) (spoken : Bool) (packets : List MediaPacket) : Prop where
  numbered : packets.map (·.header.seq) =
    (List.range packets.length).map fun i => enc.seq + UInt32.ofNat i
  seq : enc'.seq = enc.seq + UInt32.ofNat packets.length
  flagged : ∀ p ∈ packets, p.header.hasQuality = p.qualityReport.isSome
  reports : packets.filterMap (·.qualityReport) =
    if spoken then enc.pendingQualityReport.toList else []
  pending : enc'.pendingQualityReport = if spoken then none else enc.pendingQualityReport
  ordered : (packets.map (·.header.timestamp)).IsChain Serial.AtOrAfter
  first : ∀ t ∈ (packets.map (·.header.timestamp)).head?, (t - enc.timestampMs).toNat ≤ 255
  last : ∀ t ∈ (packets.map (·.header.timestamp)).getLast?, Paced t enc'
  idle : packets = [] → ∀ t, Paced t enc → Paced t enc'

/-! ### Time -/

theorem toNat_sub_le (a b c : UInt32) : (a - c).toNat ≤ (a - b).toNat + (b - c).toNat := by
  have ha := a.toNat_lt
  have hb := b.toNat_lt
  have hc := c.toNat_lt
  simp only [Serial.toNat_sub]
  omega

theorem frameDuration_le (profile : QualityProfile) :
    profile.frameDurationMs.toUInt32.toNat ≤ 255 := by
  rw [UInt8.toNat_toUInt32]
  exact Nat.le_of_lt_succ profile.frameDurationMs.toNat_lt

theorem toNat_add_sub (t d : UInt32) : (t + d - t).toNat = d.toNat := by
  rw [UInt32.add_comm, UInt32.add_sub_cancel]

theorem paced_self (enc : CallEncoder) : Paced enc.timestampMs enc := by
  rw [Paced, UInt32.sub_self]
  exact Nat.zero_le _

/-- The next packet is not before a packet not long ago. -/
theorem Paced.atOrAfter {last t : UInt32} (h : Paced last enc)
    (ht : (t - enc.timestampMs).toNat ≤ 255) : Serial.AtOrAfter last t := by
  have hsum := toNat_sub_le t enc.timestampMs last
  rw [Paced] at h
  rw [Serial.AtOrAfter]
  omega

/-! ### The branches -/

theorem hasQuality_of_flags {h : MediaHeader} (flags : UInt8) (hflags : h.flags = flags)
    (hplain : (flags &&& MediaHeader.flagQuality != 0) = false) : h.hasQuality = false := by
  rw [MediaHeader.hasQuality, hflags, hplain]

theorem sourcePacket_flagged (enc : CallEncoder) (encoded : Buf) :
    (enc.sourcePacket encoded).header.hasQuality =
      (enc.sourcePacket encoded).qualityReport.isSome := by
  simp only [sourcePacket, MediaHeader.hasQuality]
  cases enc.pendingQualityReport with
  | none => rfl
  | some report =>
      rw [Option.isSome_some, if_pos rfl]
      decide

theorem suppress_emits (enc : CallEncoder) : Emits enc enc.suppress.1 false enc.suppress.2 := by
  have hduration := frameDuration_le enc.profile
  by_cases hdue : (enc.cnCounter + 1) % 10 = 0
  · have hsuppress : enc.suppress = ({ enc with
        framesSuppressed := enc.framesSuppressed + 1
        cnCounter := enc.cnCounter + 1
        timestampMs := enc.timestampMs + enc.profile.frameDurationMs.toUInt32
        seq := enc.seq + 1 }, [comfortNoisePacket { enc with
          timestampMs := enc.timestampMs + enc.profile.frameDurationMs.toUInt32 }]) := if_pos hdue
    rw [hsuppress]
    refine ⟨?_, rfl, ?_, rfl, rfl, List.isChain_singleton _, ?_, ?_, (nomatch ·)⟩
    · exact congrArg (fun n => [n]) (UInt32.add_zero enc.seq).symm
    · intro p hp
      rw [List.mem_singleton.mp hp]
      exact hasQuality_of_flags 0 rfl (by decide)
    · rintro t ht
      obtain rfl := Option.some.inj ht
      exact (toNat_add_sub _ _).trans_le hduration
    · rintro t ht
      obtain rfl := Option.some.inj ht
      exact paced_self _
  · have hsuppress : enc.suppress = ({ enc with
        framesSuppressed := enc.framesSuppressed + 1
        cnCounter := enc.cnCounter + 1
        timestampMs := enc.timestampMs + enc.profile.frameDurationMs.toUInt32 }, []) := if_neg hdue
    rw [hsuppress]
    refine ⟨rfl, (UInt32.add_zero enc.seq).symm, fun p hp => absurd hp List.not_mem_nil, rfl, rfl,
      List.IsChain.nil, (fun t ht => nomatch ht), (fun t ht => nomatch ht), fun _ t ht => ?_⟩
    have hcounter : (enc.cnCounter + 1).toNat % 10 = enc.cnCounter.toNat % 10 + 1 := by
      have hne : (enc.cnCounter + 1).toNat % 10 ≠ 0 := fun heq =>
        hdue (UInt32.toNat_inj.mp ((UInt32.toNat_mod _ _).trans heq))
      have hlt := enc.cnCounter.toNat_lt
      rw [Serial.toNat_add_one] at hne ⊢
      -- When the counter wraps, comfort noise is due.
      rcases Nat.lt_or_ge (enc.cnCounter.toNat + 1) (2 ^ 32) with hsmall | hwraps
      · rw [Nat.mod_eq_of_lt hsmall] at hne ⊢
        omega
      · obtain heq : enc.cnCounter.toNat + 1 = 2 ^ 32 := by omega
        exact absurd (by rw [heq, Nat.mod_self, Nat.zero_mod]) hne
    have hsum := toNat_sub_le (enc.timestampMs + enc.profile.frameDurationMs.toUInt32)
      enc.timestampMs t
    rw [toNat_add_sub] at hsum
    rw [Paced] at ht
    simp only [Paced, hcounter]
    omega

/-- A source packet, with the repair packets of its block if it is the last one. -/
theorem spoken_emits {repairs : List MediaPacket} (encoded : Buf)
    (hseq : enc'.seq = enc.seq + UInt32.ofNat (repairs.length + 1))
    (htime : enc'.timestampMs = enc.timestampMs + enc.profile.frameDurationMs.toUInt32)
    (hpending : enc'.pendingQualityReport = none)
    (hrepairs : repairs.map (·.header.seq) =
      (List.range repairs.length).map fun i => enc.seq + UInt32.ofNat (i + 1))
    (hplain : ∀ p ∈ repairs, p.header.hasQuality = false ∧ p.qualityReport = none ∧
      p.header.timestamp = enc'.timestampMs) :
    Emits enc enc' true (enc.sourcePacket encoded :: repairs) := by
  have hduration := frameDuration_le enc.profile
  have hafter : (enc'.timestampMs - enc.timestampMs).toNat ≤ 255 := by
    rw [htime, toNat_add_sub]
    exact hduration
  have hnow : Serial.AtOrAfter enc.timestampMs enc'.timestampMs := by
    rw [Serial.AtOrAfter]
    omega
  have htimes : ∀ t ∈ repairs.map (·.header.timestamp), t = enc'.timestampMs :=
    List.forall_mem_map.mpr fun p hp => (hplain p hp).2.2
  constructor
  · rw [List.map_cons, hrepairs, List.length_cons, List.range_succ_eq_map, List.map_cons, List.map_map]
    exact congrArg (· :: _) (UInt32.add_zero enc.seq).symm
  · exact hseq
  · rw [List.forall_mem_cons]
    refine ⟨enc.sourcePacket_flagged encoded, fun p hp => ?_⟩
    rw [(hplain p hp).1, (hplain p hp).2.1]
    rfl
  · have hnone : repairs.filterMap (·.qualityReport) = [] :=
      List.filterMap_eq_nil_iff.mpr fun p hp => (hplain p hp).2.1
    simp only [List.filterMap_cons, hnone, sourcePacket, if_true]
    cases enc.pendingQualityReport with
    | none => rfl
    | some report => rfl
  · exact hpending
  · refine List.Pairwise.isChain (List.pairwise_cons.mpr ⟨fun t ht => ?_, ?_⟩)
    · rw [htimes t ht]
      exact hnow
    · refine List.pairwise_of_forall_mem_list fun t ht t' ht' => ?_
      rw [htimes t ht, htimes t' ht']
      exact Serial.atOrAfter_self _
  · rintro t ht
    obtain rfl := Option.some.inj ht
    simp only [sourcePacket, UInt32.sub_self]
    exact Nat.zero_le _
  · intro t ht
    have hmem := List.mem_of_getLast? ht
    rw [List.map_cons, List.mem_cons] at hmem
    rcases hmem with rfl | hrepair
    · simp only [sourcePacket, Paced]
      omega
    · rw [htimes t hrepair]
      exact paced_self _
  · exact fun h => absurd h (List.cons_ne_nil _ _)

theorem add_ofNat_succ (seq : UInt32) (n : ℕ) : seq + UInt32.ofNat (n + 1) = seq + 1 + UInt32.ofNat n := by
  rw [Nat.add_comm, UInt32.ofNat_add, ← UInt32.add_assoc]
  rfl

/-- The repair packets of a closed block go on with the numbers. -/
theorem closeBlock_emits (rq : RaptorQ) (enc : CallEncoder) (encoded : Buf) :
    Emits enc ((enc.withSymbol encoded).closeBlock rq).1 true
      (enc.sourcePacket encoded :: ((enc.withSymbol encoded).closeBlock rq).2) := by
  have hclose : ∃ repairs : List (UInt16 × Buf),
      (enc.withSymbol encoded).closeBlock rq =
        ({ enc.withSymbol encoded with
            seq := enc.seq + 1 + UInt32.ofNat repairs.length
            fecEnc := (enc.withSymbol encoded).fecEnc.finalizeBlock
            blockId := enc.blockId + 1
            frameInBlock := 0 },
          repairs.zipIdx.map fun r => (enc.withSymbol encoded).repairPacket
            (enc.seq + 1 + UInt32.ofNat r.2) r.1.1 r.1.2) := ⟨_, rfl⟩
  obtain ⟨repairs, hclose⟩ := hclose
  rw [hclose]
  refine spoken_emits encoded ?_ rfl rfl ?_ ?_
  · simp only [List.length_map, List.length_zipIdx, add_ofNat_succ]
  · refine List.ext_getElem ?_ fun i h₁ h₂ => ?_
    · simp only [List.length_map, List.length_range]
    · simp only [List.getElem_map, List.getElem_zipIdx, Nat.zero_add, List.getElem_range,
        repairPacket, add_ofNat_succ]
  · refine List.forall_mem_map.mpr fun r _ => ⟨?_, rfl, rfl⟩
    exact hasQuality_of_flags MediaHeader.flagRepair rfl (by decide)

/-- Unless the codec fails, a frame gives out packets in order and the books stay together. -/
theorem encodeFrame_emits (h : InStep enc)
    (hcodec : enc.speaks frame = true → frame.encoded.isSome = true) :
    ∃ packets, (enc.encodeFrame rq frame).2 = some packets ∧
      Emits enc (enc.encodeFrame rq frame).1 (enc.speaks frame) packets ∧
      InStep (enc.encodeFrame rq frame).1 ∧
      (enc.encodeFrame rq frame).1.suppressionEnabled = enc.suppressionEnabled := by
  cases hsilent : enc.suppressionEnabled && frame.silent with
  | true =>
      have hsame := Sending.suppress_sameBlock enc
      rw [encodeFrame_silent hsilent, speaks, hsilent]
      refine ⟨_, rfl, suppress_emits enc, ?_, ?_⟩
      · constructor
        · rw [hsame.frameInBlock, hsame.fecEnc, h.inBlock]
        · rw [hsame.frameInBlock, hsame.profile]
          exact h.room
        · rw [hsame.fecEnc, hsame.profile, h.perBlock]
      · unfold suppress
        dsimp only
        split
        · rfl
        · rfl
  | false =>
      have hspeaks : enc.speaks frame = true := by rw [speaks, hsilent]; rfl
      obtain ⟨encoded, hencoded⟩ := Option.isSome_iff_exists.mp (hcodec hspeaks)
      rw [hspeaks]
      cases hopus : enc.profile.codec.isOpus with
      | true =>
          rw [encodeFrame_opus hsilent hencoded hopus]
          refine ⟨_, rfl, ?_, ⟨h.inBlock, h.room, h.perBlock⟩, rfl⟩
          exact spoken_emits encoded rfl rfl rfl rfl fun p hp => absurd hp List.not_mem_nil
      | false =>
          have hlt := UInt8.lt_iff_toNat_lt.mp h.room
          have hmax := enc.profile.framesPerBlock.toNat_lt
          have hnext : (enc.frameInBlock + 1).toNat = enc.frameInBlock.toNat + 1 := by
            rw [UInt8.toNat_add]
            exact Nat.mod_eq_of_lt (show enc.frameInBlock.toNat + 1 < 256 by omega)
          have hroom : ¬ enc.fecEnc.framesPerBlock ≤ enc.fecEnc.sourceSymbols.length := by
            have hsize : enc.frameInBlock.toNat = enc.fecEnc.sourceSymbols.length := h.inBlock
            rw [h.perBlock, ← hsize]
            exact Nat.not_le.mpr hlt
          rw [encodeFrame_codec2 hsilent hencoded hopus hroom]
          split
          · refine ⟨_, rfl, closeBlock_emits rq enc encoded, ⟨rfl, ?_, h.perBlock⟩, rfl⟩
            exact UInt8.lt_iff_toNat_lt.mpr (Nat.zero_lt_of_lt hlt)
          · next hmore =>
              refine ⟨_, rfl, ?_, ⟨?_, UInt8.not_le.mp hmore, h.perBlock⟩, rfl⟩
              · exact spoken_emits encoded rfl rfl rfl rfl fun p hp => absurd hp List.not_mem_nil
              · simp only [withSymbol, RaptorQFecEncoder.currentBlockSize, List.length_append,
                  List.length_singleton, hnext]
                exact congrArg (· + 1) h.inBlock

end CallEncoder
/-! ## Runs -/

/-- A packet, and the number of the report it carries, which is the one queued last. -/
structure LoggedPacket where
  packet : MediaPacket
  report : Option ℕ

/-- An encoder, the reports that were queued and the packets that were sent. -/
structure Ledger where
  enc : CallEncoder
  queued : List QualityReport
  sent : List LoggedPacket

namespace Ledger
variable (rq : RaptorQ)

def start (config : CallConfig) : Ledger := ⟨.new config, [], []⟩

def log (l : Ledger) (packet : MediaPacket) : LoggedPacket :=
  ⟨packet, packet.qualityReport.map fun _ => l.queued.length - 1⟩

def step (l : Ledger) : EncoderOp → Ledger
  | .encodeFrame frame =>
      { l with
        enc := (l.enc.encodeFrame rq frame).1
        sent := l.sent ++ ((l.enc.encodeFrame rq frame).2.getD []).map l.log }
  | .setProfile profile accepted => { l with enc := l.enc.setProfile profile accepted }
  | .setPendingQualityReport report =>
      { l with enc := l.enc.setPendingQualityReport report, queued := l.queued ++ [report] }

/-- The numbers of the reports that were sent. -/
def attached (l : Ledger) : List ℕ := l.sent.filterMap (·.report)

/-- The block, the numbers, the times and the reports are as they should be. -/
structure Kept (l : Ledger) : Prop where
  inBlock : l.enc.frameInBlock.toNat = l.enc.fecEnc.currentBlockSize
  room : l.enc.frameInBlock < l.enc.profile.framesPerBlock
  numbered : l.sent.map (·.packet.header.seq) = (List.range l.sent.length).map UInt32.ofNat
  ordered : (l.sent.map (·.packet.header.timestamp)).IsChain Serial.AtOrAfter
  flagged : ∀ p ∈ l.sent, p.packet.header.hasQuality = p.packet.qualityReport.isSome
  carried : ∀ p ∈ l.sent, p.packet.qualityReport = p.report.bind (l.queued[·]?)
  once : l.attached.Nodup

/-- The FEC encoder does not fail once the packet has its number. -/
def Returns (l : Ledger) : EncoderOp → Prop
  | .encodeFrame frame => (l.enc.encodeFrame rq frame).2.isSome
  | .setProfile _ _ => True
  | .setPendingQualityReport _ => True

/-- The codec does not fail, and profiles have frames in their blocks. -/
def Allowed (config : CallConfig) : EncoderOp → Prop
  | .encodeFrame frame =>
      (config.suppressionEnabled && frame.silent) = false → frame.encoded.isSome
  | .setProfile profile accepted => accepted = true → 0 < profile.framesPerBlock
  | .setPendingQualityReport _ => True

/-- A report is sent, if a frame is encoded before the next report is queued. -/
def SentInTime (config : CallConfig) (ops : List EncoderOp) : Prop :=
  ∀ before report mid frame after,
    ops = before ++ .setPendingQualityReport report :: (mid ++ .encodeFrame frame :: after) →
    (∀ next, .setPendingQualityReport next ∉ mid) →
    (config.suppressionEnabled && frame.silent) = false →
      (run (step rq) (start config) before).queued.length ∈
        (run (step rq) (start config) ops).attached

/-! ### One step -/

/-- The place for one report, as a mailbox. -/
def view (l : Ledger) : Mailbox.State :=
  ⟨l.queued.length, l.enc.pendingQualityReport.isSome, l.attached⟩

def mail (config : CallConfig) : EncoderOp → Mailbox.Event
  | .encodeFrame frame => if config.suppressionEnabled && frame.silent then .other else .take
  | .setProfile _ _ => .other
  | .setPendingQualityReport _ => .put

structure Inv (config : CallConfig) (l : Ledger) : Prop where
  inStep : l.enc.InStep
  seq : l.enc.seq = UInt32.ofNat l.sent.length
  numbered : l.sent.map (·.packet.header.seq) = (List.range l.sent.length).map UInt32.ofNat
  ordered : (l.sent.map (·.packet.header.timestamp)).IsChain Serial.AtOrAfter
  paced : ∀ t ∈ (l.sent.map (·.packet.header.timestamp)).getLast?, l.enc.Paced t
  flagged : ∀ p ∈ l.sent, p.packet.header.hasQuality = p.packet.qualityReport.isSome
  carried : ∀ p ∈ l.sent, p.packet.qualityReport = p.report.bind (l.queued[·]?)
  waiting : ∀ report ∈ l.enc.pendingQualityReport, l.queued[l.queued.length - 1]? = some report
  mailbox : Mailbox.Inv (view l)
  suppression : l.enc.suppressionEnabled = config.suppressionEnabled

variable {rq} {config : CallConfig} {l : Ledger} {op : EncoderOp} {frame : CapturedFrame}

theorem Inv.kept (h : Inv config l) : Kept l :=
  ⟨h.inStep.inBlock, h.inStep.room, h.numbered, h.ordered, h.flagged, h.carried, h.mailbox.nodup⟩

theorem start_inv (hframes : 0 < config.profile.framesPerBlock) : Inv config (start config) where
  inStep := ⟨rfl, hframes, rfl⟩
  seq := rfl
  numbered := rfl
  ordered := List.IsChain.nil
  paced _ ht := nomatch ht
  flagged _ hp := absurd hp List.not_mem_nil
  carried _ hp := absurd hp List.not_mem_nil
  waiting _ hr := nomatch hr
  mailbox := ⟨fun _ hn => absurd hn List.not_mem_nil, List.nodup_nil,
    fun h => absurd h Bool.false_ne_true⟩
  suppression := rfl

theorem attached_append (l : Ledger) (packets : List MediaPacket) :
    (l.sent ++ packets.map l.log).filterMap (·.report) =
      l.attached ++ (packets.filterMap (·.qualityReport)).map fun _ => l.queued.length - 1 := by
  rw [List.filterMap_append, List.filterMap_map, List.map_filterMap]
  rfl

/-- Packets that an encoder gives out keep the books. -/
theorem inv_emits (h : Inv config l) {enc' : CallEncoder} {spoken : Bool}
    {packets : List MediaPacket} (he : CallEncoder.Emits l.enc enc' spoken packets)
    (hstep : enc'.InStep) (hsup : enc'.suppressionEnabled = l.enc.suppressionEnabled)
    (hview : Mailbox.Inv (view { l with enc := enc', sent := l.sent ++ packets.map l.log })) :
    Inv config { l with enc := enc', sent := l.sent ++ packets.map l.log } := by
  have hlen : (l.sent ++ packets.map l.log).length = l.sent.length + packets.length := by
    rw [List.length_append, List.length_map]
  have htimes : (l.sent ++ packets.map l.log).map (·.packet.header.timestamp) =
      l.sent.map (·.packet.header.timestamp) ++ packets.map (·.header.timestamp) := by
    rw [List.map_append, List.map_map]
    rfl
  constructor
  · exact hstep
  · rw [he.seq, h.seq, hlen, UInt32.ofNat_add]
  · rw [hlen, List.range_add, List.map_append, List.map_append, h.numbered, List.map_map, List.map_map]
    congr 1
    refine he.numbered.trans (List.map_congr_left fun i _ => ?_)
    rw [Function.comp_apply, h.seq, UInt32.ofNat_add]
  · rw [htimes]
    refine List.isChain_append.mpr ⟨h.ordered, he.ordered, fun t ht t' ht' => ?_⟩
    exact (h.paced t ht).atOrAfter (he.first t' ht')
  · intro t ht
    rw [htimes] at ht
    cases packets with
    | nil =>
        rw [List.map_nil, List.append_nil] at ht
        exact he.idle rfl t (h.paced t ht)
    | cons p rest =>
        rw [List.getLast?_append_of_ne_nil _ (by exact List.cons_ne_nil _ _)] at ht
        exact he.last t ht
  · exact List.forall_mem_append.mpr ⟨h.flagged, List.forall_mem_map.mpr he.flagged⟩
  · refine List.forall_mem_append.mpr ⟨h.carried, List.forall_mem_map.mpr fun p hp => ?_⟩
    cases hreport : p.qualityReport with
    | none => simp only [log, hreport, Option.map_none, Option.bind_none]
    | some report =>
        have hmem : report ∈ packets.filterMap (·.qualityReport) :=
          List.mem_filterMap.mpr ⟨p, hp, hreport⟩
        have hpending : report ∈ l.enc.pendingQualityReport := by
          rw [he.reports] at hmem
          cases spoken with
          | true => exact Option.mem_toList.mp hmem
          | false => exact absurd hmem List.not_mem_nil
        simp only [log, hreport, Option.map_some, Option.bind_some]
        exact (h.waiting report hpending).symm
  · intro report hr
    rw [he.pending] at hr
    cases spoken with
    | true => cases hr
    | false => exact h.waiting report hr
  · exact hview
  · exact hsup.trans h.suppression

theorem Inv.step (rq : RaptorQ) (h : Inv config l) (hop : Allowed config op) :
    Inv config (l.step rq op) ∧ view (l.step rq op) = Mailbox.step (view l) (mail config op) ∧
      l.Returns rq op := by
  cases op with
  | encodeFrame frame =>
      have hspeaks : l.enc.speaks frame = !(config.suppressionEnabled && frame.silent) := by
        rw [CallEncoder.speaks, h.suppression]
      obtain ⟨packets, hout, he, hstep, hsup⟩ := @CallEncoder.encodeFrame_emits rq l.enc frame
        h.inStep fun hs => hop (by rw [← Bool.not_eq_true', ← hspeaks, hs])
      have hnext : l.step rq (.encodeFrame frame) =
          { l with
            enc := (l.enc.encodeFrame rq frame).1
            sent := l.sent ++ packets.map l.log } := by
        rw [Ledger.step, hout]
        rfl
      have hview : view (l.step rq (.encodeFrame frame)) =
          Mailbox.step (view l) (mail config (.encodeFrame frame)) := by
        rw [hnext]
        simp only [view, attached, attached_append, he.reports, he.pending, hspeaks, mail]
        cases config.suppressionEnabled && frame.silent with
        | true => simp [Mailbox.step]
        | false =>
            cases l.enc.pendingQualityReport with
            | none => simp [Mailbox.step]
            | some report => simp [Mailbox.step]
      refine ⟨?_, hview, by rw [Returns, hout]; rfl⟩
      have hmail := Mailbox.inv_step h.mailbox (mail config (.encodeFrame frame))
      rw [← hview] at hmail
      rw [hnext] at hmail ⊢
      exact inv_emits h he hstep hsup hmail
  | setProfile profile accepted =>
      cases accepted with
      | true =>
          refine ⟨⟨⟨rfl, hop rfl, rfl⟩, h.seq, h.numbered, h.ordered, h.paced, h.flagged, h.carried,
            h.waiting, h.mailbox, h.suppression⟩, rfl, trivial⟩
      | false => exact ⟨h, rfl, trivial⟩
  | setPendingQualityReport report =>
      have hview : view (l.step rq (.setPendingQualityReport report)) =
          Mailbox.step (view l) .put := by
        rw [Mailbox.step, view, view]
        congr 1
        exact List.length_append
      have hmail := Mailbox.inv_step h.mailbox .put
      rw [← hview] at hmail
      refine ⟨⟨⟨h.inStep.inBlock, h.inStep.room, h.inStep.perBlock⟩, h.seq, h.numbered, h.ordered,
        h.paced, h.flagged, fun p hp => ?_, fun r hr => ?_, hmail, h.suppression⟩, hview, trivial⟩
      · rw [h.carried p hp]
        cases hnumber : p.report with
        | none => rfl
        | some n =>
            have hn : n ∈ l.attached := List.mem_filterMap.mpr ⟨p, hp, hnumber⟩
            exact (List.getElem?_append_left (h.mailbox.lt n hn)).symm
      · obtain rfl := Option.some.inj hr
        exact List.getLast?_eq_getElem?.symm.trans List.getLast?_concat

/-! ### Every run -/

theorem inv_run (rq : RaptorQ) (h : Inv config l) {ops : List EncoderOp} (hops : ∀ op ∈ ops, Allowed config op) :
    Inv config (run (step rq) l ops) ∧
      view (run (step rq) l ops) = run Mailbox.step (view l) (ops.map (mail config)) := by
  induction ops generalizing l with
  | nil => exact ⟨h, rfl⟩
  | cons op ops ih =>
      obtain ⟨hop, hrest⟩ := List.forall_mem_cons.mp hops
      obtain ⟨hnext, hview, -⟩ := h.step rq hop
      obtain ⟨hinv, hrun⟩ := ih hnext hrest
      refine ⟨hinv, hrun.trans ?_⟩
      rw [hview]
      rfl

theorem sentInTime (hframes : 0 < config.profile.framesPerBlock) {ops : List EncoderOp}
    (hops : ∀ op ∈ ops, Allowed config op) : SentInTime rq config ops := by
  rintro before report mid frame after rfl hmid hspoken
  have hbefore := (inv_run rq (start_inv hframes)
    (List.forall_mem_append.mp hops).1).2
  have hrun := (inv_run rq (start_inv hframes) hops).2
  have hput : .put ∉ mid.map (mail config) := by
    intro hmem
    obtain ⟨op, hop, hput⟩ := List.mem_map.mp hmem
    cases op with
    | encodeFrame frame =>
        rw [mail] at hput
        split at hput
        · cases hput
        · cases hput
    | setProfile profile accepted => cases hput
    | setPendingQualityReport next => exact hmid next hop
  have hmail : mail config (.encodeFrame frame) = .take := by
    rw [mail, hspoken]
    rfl
  have hsplit : run Mailbox.step (view (start config))
      ((before ++ .setPendingQualityReport report :: (mid ++ .encodeFrame frame :: after)).map
        (mail config)) =
      run Mailbox.step (run Mailbox.step (view (start config)) (before.map (mail config)))
        (.put :: (mid.map (mail config) ++ .take :: after.map (mail config))) := by
    rw [List.map_append, List.map_cons, List.map_append, List.map_cons, hmail]
    exact List.foldl_append
  have htaken := @Mailbox.taken_of_put_take _ (after.map (mail config))
    (run Mailbox.step (view (start config)) (before.map (mail config))) hput
  rw [← hsplit, ← hrun, ← hbefore] at htaken
  exact htaken

/-- In every run in which the codec does not fail and profiles have frames in their blocks. -/
theorem books_kept (rq : RaptorQ) (config : CallConfig) (ops : List EncoderOp)
    (hframes : 0 < config.profile.framesPerBlock) (hops : ∀ op ∈ ops, Allowed config op) :
    Throughout (step rq) Kept (start config) ops ∧
      EachStep (step rq) (Returns rq) (start config) ops ∧ SentInTime rq config ops := by
  have hallowed : EachStep (step rq) (fun _ op => Allowed config op) (start config) ops :=
    eachStep_of_forall fun op hop _ => hops op hop
  refine ⟨?_, ?_, sentInTime hframes hops⟩
  · refine (throughout_of_eachStep (P := Inv config) (fun l op h hop => (h.step rq hop).1)
      (start_inv hframes) hallowed).mono fun l h => h.kept
  · exact hallowed.imp (P := Inv config) (fun l op h hop => (h.step rq hop).1)
      (fun l op h hop => (h.step rq hop).2.2) (start_inv hframes)

instance Allowed.decidable (config : CallConfig) : (op : EncoderOp) → Decidable (Allowed config op)
  | .encodeFrame _ => inferInstanceAs (Decidable (_ → _))
  | .setProfile _ _ => inferInstanceAs (Decidable (_ → _))
  | .setPendingQualityReport _ => isTrue trivial

/-- Two reports, the second of which waits through silence, a block with its repair packets, and
then Opus. -/
def reportedCall : List EncoderOp :=
  [.setPendingQualityReport ⟨1, 2, 3, 4⟩, .encodeFrame ⟨false, some [7]⟩,
    .setPendingQualityReport ⟨5, 6, 7, 8⟩, .encodeFrame ⟨true, none⟩] ++
  List.replicate 7 (.encodeFrame ⟨false, some [8]⟩) ++
  [.setProfile .good true, .encodeFrame ⟨false, some [9]⟩]

theorem reportedCall_kept :
    Throughout (step .parity) Kept (start { CallConfig.default with profile := .catastrophic })
        reportedCall ∧
      EachStep (step .parity) (Returns .parity)
        (start { CallConfig.default with profile := .catastrophic }) reportedCall ∧
      SentInTime .parity { CallConfig.default with profile := .catastrophic } reportedCall :=
  books_kept .parity { CallConfig.default with profile := .catastrophic } reportedCall (by decide)
    (by decide)

/-- A report that waits is replaced by the next one and never sent. A block that is to have no
frames has no room. -/
theorem report_replaced :
    (∃ n < (run (step .parity) (start .default) [.setPendingQualityReport ⟨1, 2, 3, 4⟩,
        .setPendingQualityReport ⟨5, 6, 7, 8⟩, .encodeFrame ⟨false, some [7]⟩]).queued.length,
      n ∉ (run (step .parity) (start .default) [.setPendingQualityReport ⟨1, 2, 3, 4⟩,
        .setPendingQualityReport ⟨5, 6, 7, 8⟩, .encodeFrame ⟨false, some [7]⟩]).attached) ∧
    ¬ Kept (start { CallConfig.default with
      profile := { QualityProfile.good with framesPerBlock := 0 } }) := by
  refine ⟨⟨0, by decide, by decide⟩, fun h => ?_⟩
  exact absurd h.room (by decide)

end Ledger
end Wzp.Client
