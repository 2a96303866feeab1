import Wzp.Client.LossFree
import Wzp.Lib.Runs
import Wzp.Proto.Quality

/-!
# Forwarding to another relay

One direction of a call that is forwarded: FEC decoding, the jitter buffer, and FEC
encoding for the way on.
-/
namespace Wzp.Relay
open Bytes Proto Fec Runs Loops
open Client (CallConfig CallEncoder CapturedFrame EncoderOp Sending SentPacket)
open Client.LossFree (isSource isSource_source encodeFrame_begins)

structure PipelineConfig where
  initialProfile : QualityProfile
  jitterTarget : ℕ
  jitterMax : ℕ
  jitterMin : ℕ

def PipelineConfig.default : PipelineConfig := ⟨.good, 50, 250, 25⟩

structure PipelineStats where
  packetsReceived : UInt64
  packetsForwarded : UInt64
  packetsFecRecovered : UInt64
  packetsLost : UInt64
  profileChanges : UInt64

def PipelineStats.default : PipelineStats := ⟨0, 0, 0, 0, 0⟩

structure RelayPipeline where
  fecEncoder : RaptorQFecEncoder
  fecDecoder : RaptorQFecDecoder
  jitter : JitterBuffer
  quality : AdaptiveQualityController
  profile : QualityProfile
  outSeq : UInt32
  stats : PipelineStats

namespace RelayPipeline

def new (config : PipelineConfig) : RelayPipeline where
  fecEncoder := createEncoder config.initialProfile
  fecDecoder := createDecoder config.initialProfile
  jitter := .new config.jitterTarget config.jitterMax config.jitterMin
  quality := .new
  profile := config.initialProfile
  outSeq := 0
  stats := .default

/-- A change of the profile begins with new FEC coders. -/
def observe (p : RelayPipeline) (now : ℕ) (report : QualityReport) : RelayPipeline :=
  match p.quality.observe now report with
  | (quality, some profile) =>
      { p with
        quality := quality
        profile := profile
        stats := { p.stats with profileChanges := p.stats.profileChanges + 1 }
        fecEncoder := createEncoder profile
        fecDecoder := createDecoder profile }
  | (quality, none) => { p with quality := quality }

/-- The frame of a decoded block, its number made from the block's and its place in it. -/
def reconstructed (profile : QualityProfile) (header : MediaHeader) (frame : Buf) (i : ℕ) :
    MediaPacket :=
  ⟨⟨2, 0, .audio, header.codecId, 0, header.fecRatio,
    header.fecBlock.toUInt32 * profile.framesPerBlock.toUInt32 + UInt32.ofNat i,
    header.timestamp + UInt32.ofNat i * header.codecId.frameDurationMs.toUInt32,
    header.fecBlock.toUInt8.toUInt16 ||| ((UInt8.ofNat i).toUInt16 <<< 8)⟩, frame, none⟩

/-- The packet goes to the FEC decoder, and the frames of its block to the jitter buffer. -/
def feed (rq : RaptorQ) (p : RelayPipeline) (now : ℕ) (packet : MediaPacket) : RelayPipeline :=
  let header := packet.header
  let dec := p.fecDecoder.addSymbol now header.fecBlock (header.fecBlock >>> 8) packet.payload
  match dec.tryDecode rq now header.fecBlock with
  | (some frames, dec) =>
      let packets := frames.zipIdx.map fun (frame, i) => reconstructed p.profile header frame i
      { p with
        fecDecoder := dec
        jitter := packets.foldl (fun jb packet => jb.push now packet) p.jitter }
  | (none, dec) => { p with fecDecoder := dec }

/-- One turn of the loop that empties the jitter buffer. -/
def popOnce : List MediaPacket × RelayPipeline →
    List MediaPacket × RelayPipeline ⊕ List MediaPacket × RelayPipeline
  | (output, p) =>
      match p.jitter.pop with
      | (.packet packet, jitter) => .inl (output ++ [packet],
          { p with
            jitter := jitter
            stats := { p.stats with packetsForwarded := p.stats.packetsForwarded + 1 } })
      | (.missing _, jitter) => .inl (output,
          { p with
            jitter := jitter
            stats := { p.stats with packetsLost := p.stats.packetsLost + 1 } })
      | (.notReady, jitter) => .inr (output, { p with jitter := jitter })

/-- `fuel` bounds the turns of the loop. -/
def ingest (rq : RaptorQ) (fuel : ℕ) (p : RelayPipeline) (now : ℕ) (packet : MediaPacket) :
    Option (List MediaPacket × RelayPipeline) :=
  let p := { p with stats := { p.stats with packetsReceived := p.stats.packetsReceived + 1 } }
  let p := match packet.qualityReport with
    | some report => p.observe now report
    | none => p
  loop popOnce fuel ([], p.feed rq now packet)

def repairPacket (p : RelayPipeline) (packet : MediaPacket) (seq : UInt32) (symIdx : UInt16)
    (repairData : Buf) : MediaPacket :=
  ⟨⟨2, MediaHeader.flagRepair, .audio, packet.header.codecId, 0,
    MediaHeader.encodeFecRatio p.profile.fecRatio, seq, packet.header.timestamp,
    p.fecEncoder.blockId ||| (symIdx <<< 8)⟩, repairData, none⟩

/-- The packet under its new number, and after the last of a block the repair packets. -/
def prepareOutbound (rq : RaptorQ) (p : RelayPipeline) (packet : MediaPacket) :
    List MediaPacket × RelayPipeline :=
  let packet := { packet with header := { packet.header with seq := p.outSeq } }
  let p := { p with
    outSeq := p.outSeq + 1
    fecEncoder := match p.fecEncoder.addSourceSymbol packet.payload with
      | .ok fecEncoder => fecEncoder
      | .error _ => p.fecEncoder }
  if p.profile.framesPerBlock.toNat ≤ p.fecEncoder.sourceSymbols.length then
    let repairs := p.fecEncoder.generateRepair rq p.profile.fecRatio
    let packets := repairs.zipIdx.map fun (r, i) =>
      p.repairPacket packet (p.outSeq + UInt32.ofNat i) r.1 r.2
    (packet :: packets,
      { p with
        outSeq := p.outSeq + UInt32.ofNat repairs.length
        fecEncoder := p.fecEncoder.finalizeBlock })
  else ([packet], p)

end RelayPipeline

/-- A packet on the way on, and how many blocks were begun before its own. -/
structure OutboundPacket where
  packet : MediaPacket
  block : ℕ

/-- The block's number in the label of a packet. -/
def OutboundPacket.blockId (p : OutboundPacket) : UInt8 := p.packet.header.fecBlock.toUInt8

/-- A pipeline at work, with what it has given out. -/
structure Forwarding where
  pipeline : RelayPipeline
  block : ℕ
  decoded : List MediaPacket
  outbound : List OutboundPacket

namespace Forwarding
variable (rq : RaptorQ)

def start (config : PipelineConfig) : Forwarding := ⟨.new config, 0, [], []⟩

/-- A packet that the pipeline has given out goes on. -/
def send (s : Forwarding) (packet : MediaPacket) : Forwarding :=
  let (packets, pipeline) := s.pipeline.prepareOutbound rq packet
  { pipeline := pipeline
    block := if pipeline.fecEncoder.blockId = s.pipeline.fecEncoder.blockId then s.block
      else s.block + 1
    decoded := s.decoded ++ [packet]
    outbound := s.outbound ++ packets.map fun packet => ⟨packet, s.block⟩ }

/-- One packet arrives. There is no result if the loop of `ingest` takes more turns than
`fuel`. -/
def forward (fuel : ℕ) (s : Forwarding) (arrival : ℕ × MediaPacket) : Option Forwarding :=
  (s.pipeline.ingest rq fuel arrival.1 arrival.2).map fun (packets, pipeline) =>
    let block := if pipeline.stats.profileChanges = s.pipeline.stats.profileChanges then s.block
      else s.block + 1
    packets.foldl (send rq) { s with pipeline := pipeline, block := block }

/-- The jitter buffer is asked once more. -/
def drain (s : Forwarding) : Forwarding :=
  match s.pipeline.jitter.pop with
  | (.packet packet, jitter) => send rq { s with pipeline := { s.pipeline with jitter := jitter } } packet
  | (_, jitter) => { s with pipeline := { s.pipeline with jitter := jitter } }

/-- What is given out for a stream are its frames, each once and in order, under different
numbers, and the labels of a block name one block. -/
structure Faithful (s : Forwarding) (stream : List MediaPacket) : Prop where
  payloads : s.decoded.map (·.payload) = (stream.filter isSource).map (·.payload)
  numbers : (s.decoded.map (·.header.seq)).Nodup
  labels : ∀ p ∈ s.outbound, ∀ q ∈ s.outbound, p.block = q.block →
    p.packet.header.isRepair = true → q.packet.header.isRepair = false → p.blockId = q.blockId

/-- The pipeline takes in the whole stream, and gives all of it out, if it is drained long
enough. -/
def Transparent (config : PipelineConfig) (arrivals : List (ℕ × MediaPacket)) : Prop :=
  ∃ fuel drains s, arrivals.foldlM (forward rq fuel) (start config) = some s ∧
    Faithful ((drain rq)^[drains] s) (arrivals.map Prod.snd)

/-- The stream of an encoder, each packet with the time of its arrival. -/
def delivered (s : Sending) (time : ℕ → ℕ) : List (ℕ × MediaPacket) :=
  s.sent.zipIdx.map fun (p, i) => (time i, p.packet)

/-! ## Playout -/

variable {rq}

theorem popOnce_waits {p : RelayPipeline} (h : p.jitter.pop.1 = .notReady) (output : List MediaPacket) :
    RelayPipeline.popOnce (output, p) = .inr (output, p) := by
  unfold RelayPipeline.popOnce
  dsimp only
  rw [JitterBuffer.pop_waits h]

theorem popOnce_ready {p : RelayPipeline} (h : p.jitter.pop.1 ≠ .notReady) (output : List MediaPacket) :
    ∃ output' p', RelayPipeline.popOnce (output, p) = .inl (output', p') ∧
      p'.jitter = p.jitter.pop.2 := by
  unfold RelayPipeline.popOnce
  dsimp only
  split
  · rename_i packet jitter hpop
    rw [hpop]
    exact ⟨_, _, rfl, rfl⟩
  · rename_i seq jitter hpop
    rw [hpop]
    exact ⟨_, _, rfl, rfl⟩
  · rename_i jitter hpop
    rw [hpop] at h
    exact absurd rfl h

/-- The loop ends only where it begins: a buffer that has an answer always has one, if
only that a packet is missing. -/
theorem loop_popOnce_iff {p : RelayPipeline} {result : List MediaPacket × RelayPipeline} :
    (∃ fuel, loop RelayPipeline.popOnce fuel ([], p) = some result) ↔
      p.jitter.pop.1 = .notReady ∧ result = ([], p) := by
  constructor
  · rintro ⟨fuel, h⟩
    by_cases hready : p.jitter.pop.1 = .notReady
    · cases fuel with
      | zero => cases h
      | succ fuel =>
          rw [loop_break (popOnce_waits hready [])] at h
          exact ⟨hready, (Option.some.inj h).symm⟩
    · have hforever : loop RelayPipeline.popOnce fuel ([], p) = none := by
        refine loop_forever (I := fun s => s.2.jitter.pop.1 ≠ .notReady) ?_ hready fuel
        rintro ⟨output, p⟩ hp
        obtain ⟨output', p', hstep, hjitter⟩ := popOnce_ready hp output
        refine ⟨_, hstep, ?_⟩
        dsimp only
        rw [hjitter]
        exact JitterBuffer.pop_ready hp
      rw [hforever] at h
      cases h
  · rintro ⟨hwaits, rfl⟩
    exact ⟨1, loop_break (popOnce_waits hwaits []) 0⟩

/-! ## What is given out -/

/-- The pipeline has given nothing out, and waits. -/
structure Silent (s : Forwarding) : Prop where
  decoded : s.decoded = []
  outbound : s.outbound = []
  waits : s.pipeline.jitter.pop.1 = .notReady

theorem start_silent (config : PipelineConfig) : Silent (start config) := ⟨rfl, rfl, rfl⟩

theorem forward_silent {s s' : Forwarding} {fuel : ℕ} {arrival : ℕ × MediaPacket} (h : Silent s)
    (hforward : forward rq fuel s arrival = some s') : Silent s' := by
  obtain ⟨result, hingest, rfl⟩ := Option.map_eq_some_iff.mp hforward
  obtain ⟨hwaits, rfl⟩ := loop_popOnce_iff.mp ⟨fuel, hingest⟩
  exact ⟨h.decoded, h.outbound, hwaits⟩

theorem run_silent {s s' : Forwarding} {fuel : ℕ} {arrivals : List (ℕ × MediaPacket)} (h : Silent s)
    (hrun : arrivals.foldlM (forward rq fuel) s = some s') : Silent s' := by
  induction arrivals generalizing s with
  | nil =>
      cases hrun
      exact h
  | cons arrival arrivals ih =>
      rw [List.foldlM_cons, Option.bind_eq_bind, Option.bind_eq_some_iff] at hrun
      obtain ⟨next, hforward, hrest⟩ := hrun
      exact ih (forward_silent h hforward) hrest

variable (rq) in
theorem drain_silent {s : Forwarding} (h : Silent s) (drains : ℕ) : Silent ((drain rq)^[drains] s) := by
  have hdrain : drain rq s = s := by
    unfold drain
    rw [JitterBuffer.pop_waits h.waits]
  rw [Function.iterate_fixed hdrain]
  exact h

/-! ## The encoder's stream -/

theorem tag_packet (s : Sending) (frame : CapturedFrame) (packet : MediaPacket) (i : ℕ) :
    (s.tag frame packet i).packet = packet := by
  unfold Sending.tag
  split
  · rfl
  · rfl

theorem step_begins {s : Sending} (h : ∀ p ∈ s.sent.head?, isSource p.packet = true)
    (op : EncoderOp) :
    ∀ p ∈ (s.step rq op).sent.head?, isSource p.packet = true := by
  cases op with
  | encodeFrame frame =>
      intro p hp
      unfold Sending.step at hp
      dsimp only at hp
      cases hsent : s.sent with
      | cons first rest =>
          rw [hsent, List.cons_append] at hp
          refine h p ?_
          rw [hsent]
          exact hp
      | nil =>
          rw [hsent, List.nil_append, List.head?_map, List.head?_zipIdx] at hp
          obtain ⟨_, hfirst, rfl⟩ := Option.mem_map.mp hp
          obtain ⟨packet, hpacket, rfl⟩ := Option.mem_map.mp hfirst
          rw [tag_packet]
          exact encodeFrame_begins packet hpacket
  | setProfile profile accepted => exact h
  | setPendingQualityReport report => exact h

theorem run_begins {s : Sending} (h : ∀ p ∈ s.sent.head?, isSource p.packet = true)
    (ops : List EncoderOp) : ∀ p ∈ (run (Sending.step rq) s ops).sent.head?,
      isSource p.packet = true := by
  induction ops generalizing s with
  | nil => exact h
  | cons op ops ih => exact ih (step_begins h op)

theorem delivered_packets (s : Sending) (time : ℕ → ℕ) :
    (delivered s time).map Prod.snd = s.sent.map (·.packet) := by
  have hpackets : ∀ sent : List SentPacket,
      sent.map (·.packet) = (sent.zipIdx.map Prod.fst).map (·.packet) := by
    intro sent
    rw [List.zipIdx_map_fst]
  rw [hpackets, delivered, List.map_map, List.map_map]
  rfl

/-- A pipeline that has given nothing out has not forwarded a stream with a frame. -/
theorem not_transparent {config : PipelineConfig} {arrivals : List (ℕ × MediaPacket)}
    (packet : MediaPacket) (hmem : packet ∈ arrivals.map Prod.snd) (hsource : isSource packet = true) :
    ¬ Transparent rq config arrivals := by
  rintro ⟨fuel, drains, s, hrun, hfaithful⟩
  have hsilent := drain_silent rq (run_silent (start_silent config) hrun) drains
  have hpayloads := hfaithful.payloads
  rw [hsilent.decoded, List.map_nil, eq_comm, List.map_eq_nil_iff] at hpayloads
  have hkept := List.mem_filter.mpr ⟨hmem, hsource⟩
  rw [hpayloads] at hkept
  exact List.not_mem_nil hkept

/-- The pipeline forwards the stream of an encoder exactly if there is nothing to forward. -/
theorem transparent_iff (config : PipelineConfig) (callConfig : CallConfig)
    (ops : List EncoderOp) (time : ℕ → ℕ) :
    Transparent rq config
        (delivered (run (Sending.step rq) (.start callConfig) ops) time) ↔
      (run (Sending.step rq) (.start callConfig) ops).sent = [] := by
  constructor
  · intro h
    have hbegins : ∀ p ∈ (run (Sending.step rq) (.start callConfig) ops).sent.head?,
        isSource p.packet = true :=
      run_begins (fun _ h => absurd h (Option.not_mem_none _)) ops
    cases hsent : (run (Sending.step rq) (.start callConfig) ops).sent with
    | nil => rfl
    | cons first rest =>
        rw [hsent] at hbegins
        refine absurd h (not_transparent first.packet ?_ (hbegins first rfl))
        rw [delivered_packets, hsent]
        exact List.mem_cons_self
  · intro hsent
    have hnone : delivered (run (Sending.step rq) (.start callConfig) ops) time = [] := by
      rw [delivered, hsent]
      rfl
    rw [hnone]
    exact ⟨0, 0, start config, rfl, ⟨rfl, List.nodup_nil, fun p hp => absurd hp List.not_mem_nil⟩⟩

/-- Five frames of 24 kbps Opus, a block of the default pipeline. -/
theorem opus_block_swallowed : ¬ Transparent .parity .default
    (delivered (run (Sending.step .parity) (.start .default)
      (List.replicate 5 (.encodeFrame ⟨false, some [1]⟩))) fun _ => 0) := by
  refine not_transparent ((CallEncoder.new .default).sourcePacket [1]) ?_ ?_
  · rw [delivered_packets]
    exact List.mem_cons_self
  · exact isSource_source _ _

end Forwarding
end Wzp.Relay
