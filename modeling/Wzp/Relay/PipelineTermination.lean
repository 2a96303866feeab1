import Wzp.Relay.Pipeline

/-!
# Packets that the pipeline does not come back from

The loop that empties the jitter buffer ends only if the buffer does not answer at all.
When that is can be told from what the packets that came in put into it.
-/
namespace Wzp.Relay
open Bytes Proto Fec Runs Loops

namespace JitterFeed
variable {jb : JitterBuffer}

/-- A buffer that adapts to nothing, out of which nothing was played. -/
structure Unplayed (minDepth : ℕ) (jb : JitterBuffer) : Prop where
  adaptive : jb.adaptive = none
  played : jb.stats.packetsPlayed = 0
  depth : jb.minDepth = minDepth

theorem unplayed_evict {minDepth : ℕ} (h : Unplayed minDepth jb)
    (entries : List (UInt32 × MediaPacket)) : Unplayed minDepth (jb.evict entries) := by
  induction entries generalizing jb with
  | nil => exact ⟨h.adaptive, h.played, h.depth⟩
  | cons e rest ih =>
      unfold JitterBuffer.evict
      split
      · dsimp only
        split
        · exact ih ⟨h.adaptive, h.played, h.depth⟩
        · exact ih ⟨h.adaptive, h.played, h.depth⟩
      · exact ⟨h.adaptive, h.played, h.depth⟩

theorem unplayed_accept {minDepth : ℕ} (h : Unplayed minDepth jb) (now : ℕ) (packet : MediaPacket) :
    Unplayed minDepth (jb.accept packet (JitterBuffer.tune now packet)) := by
  have haccept : ∀ {b : JitterBuffer}, Unplayed minDepth b →
      Unplayed minDepth ((JitterBuffer.tune now packet b).evict (JitterBuffer.insertSorted
        packet.header.seq packet (JitterBuffer.tune now packet b).buffer)).recordDepth := by
    intro b hb
    have htune : JitterBuffer.tune now packet b = b := by
      rw [JitterBuffer.tune, hb.adaptive]
    rw [htune]
    obtain ⟨hadaptive, hplayed, hdepth⟩ := unplayed_evict hb
      (JitterBuffer.insertSorted packet.header.seq packet b.buffer)
    exact ⟨hadaptive, hplayed, hdepth⟩
  unfold JitterBuffer.accept
  dsimp only
  split
  · exact haccept ⟨h.adaptive, h.played, h.depth⟩
  · exact haccept h

theorem unplayed_push {minDepth : ℕ} (h : Unplayed minDepth jb) (now : ℕ) (packet : MediaPacket) :
    Unplayed minDepth (jb.push now packet) := by
  unfold JitterBuffer.push JitterBuffer.pushTuned
  dsimp only
  split
  · exact ⟨h.adaptive, h.played, h.depth⟩
  · split
    · split
      · refine unplayed_accept ?_ now packet
        exact ⟨h.adaptive, h.played, h.depth⟩
      · exact ⟨h.adaptive, h.played, h.depth⟩
    · refine unplayed_accept ?_ now packet
      exact ⟨h.adaptive, h.played, h.depth⟩

theorem unplayed_pushAll {minDepth : ℕ} (now : ℕ) (packets : List MediaPacket)
    (h : Unplayed minDepth jb) :
    Unplayed minDepth (packets.foldl (fun jb packet => jb.push now packet) jb) := by
  induction packets generalizing jb with
  | nil => exact h
  | cons packet packets ih => exact ih (unplayed_push h now packet)

/-- The buffer does not answer before the first packet, and not before it is deep enough. -/
theorem waits_iff {minDepth : ℕ} (h : Unplayed minDepth jb) :
    jb.pop.1 = .notReady ↔ jb.initialized = false ∨ jb.buffer.length < minDepth := by
  have hready : ¬ jb.pop.1 = .notReady ↔ _ := JitterBuffer.pop_ready_iff
  rw [← not_iff_not, hready, h.depth, h.played, not_or, Nat.not_lt, Bool.not_eq_false]
  exact and_congr_right' (or_iff_left (fun hne => hne rfl))

end JitterFeed
open JitterFeed

/-- What a relay does with a pipeline. -/
inductive PipelineEvent where
  | ingest (now : ℕ) (packet : MediaPacket)
  | prepareOutbound (packet : MediaPacket)

namespace RelayPipeline
variable (rq : RaptorQ)

/-- What `ingest` does before it empties the jitter buffer. -/
def takeIn (p : RelayPipeline) (now : ℕ) (packet : MediaPacket) : RelayPipeline :=
  let p := { p with stats := { p.stats with packetsReceived := p.stats.packetsReceived + 1 } }
  let p := match packet.qualityReport with
    | some report => p.observe now report
    | none => p
  p.feed rq now packet

theorem ingest_eq (fuel : ℕ) (p : RelayPipeline) (now : ℕ) (packet : MediaPacket) :
    p.ingest rq fuel now packet = loop popOnce fuel ([], p.takeIn rq now packet) := rfl

/-- There is no result if the loop takes more turns than `fuel`. -/
def perform (fuel : ℕ) (p : RelayPipeline) : PipelineEvent → Option RelayPipeline
  | .ingest now packet => (p.ingest rq fuel now packet).map Prod.snd
  | .prepareOutbound packet => some (p.prepareOutbound rq packet).2

/-- The same, but the jitter buffer is not emptied. -/
def fill (p : RelayPipeline) : PipelineEvent → RelayPipeline
  | .ingest now packet => p.takeIn rq now packet
  | .prepareOutbound packet => (p.prepareOutbound rq packet).2

/-- With the packet the jitter buffer still has none, or fewer than it waits for. -/
def Waits (jitterMin : ℕ) (p : RelayPipeline) : PipelineEvent → Prop
  | .ingest now packet => (p.takeIn rq now packet).jitter.initialized = false ∨
      (p.takeIn rq now packet).jitter.buffer.length < jitterMin
  | .prepareOutbound _ => True

instance (jitterMin : ℕ) (p : RelayPipeline) (e : PipelineEvent) :
    Decidable (p.Waits rq jitterMin e) :=
  match e with
  | .ingest now packet => inferInstanceAs (Decidable
      ((p.takeIn rq now packet).jitter.initialized = false ∨
        (p.takeIn rq now packet).jitter.buffer.length < jitterMin))
  | .prepareOutbound _ => isTrue trivial

variable {rq} {p : RelayPipeline} {jitterMin : ℕ}

theorem unplayed_takeIn (h : Unplayed jitterMin p.jitter) (now : ℕ) (packet : MediaPacket) :
    Unplayed jitterMin (p.takeIn rq now packet).jitter := by
  have hobserve : ∀ (p : RelayPipeline) report, (p.observe now report).jitter = p.jitter := by
    intro p report
    unfold observe
    split <;> rfl
  have hfeed : ∀ {p : RelayPipeline}, Unplayed jitterMin p.jitter →
      Unplayed jitterMin (p.feed rq now packet).jitter := by
    intro p hp
    unfold feed
    dsimp only
    split
    · exact unplayed_pushAll now _ hp
    · exact hp
  unfold takeIn
  dsimp only
  split
  · refine hfeed ?_
    rw [hobserve]
    exact h
  · exact hfeed h

theorem unplayed_fill (h : Unplayed jitterMin p.jitter) (e : PipelineEvent) :
    Unplayed jitterMin (p.fill rq e).jitter := by
  cases e with
  | ingest now packet => exact unplayed_takeIn h now packet
  | prepareOutbound packet =>
      have hsame : (p.prepareOutbound rq packet).2.jitter = p.jitter := by
        unfold prepareOutbound
        dsimp only
        split <;> rfl
      rw [fill, hsame]
      exact h

/-- An event that is over has only filled the jitter buffer, which waits. -/
theorem waits_of_perform (h : Unplayed jitterMin p.jitter) {e : PipelineEvent} {fuel : ℕ}
    {next : RelayPipeline} (hnext : p.perform rq fuel e = some next) :
    p.Waits rq jitterMin e ∧ next = p.fill rq e := by
  cases e with
  | prepareOutbound packet => exact ⟨trivial, (Option.some.inj hnext).symm⟩
  | ingest now packet =>
      obtain ⟨result, hresult, rfl⟩ := Option.map_eq_some_iff.mp hnext
      obtain ⟨hnotReady, rfl⟩ := Forwarding.loop_popOnce_iff.mp ⟨fuel, hresult⟩
      exact ⟨(waits_iff (unplayed_takeIn h now packet)).mp hnotReady, rfl⟩

theorem perform_of_waits (h : Unplayed jitterMin p.jitter) {e : PipelineEvent}
    (hwait : p.Waits rq jitterMin e) : p.perform rq 1 e = some (p.fill rq e) := by
  cases e with
  | prepareOutbound packet => rfl
  | ingest now packet =>
      have hnotReady := (waits_iff (unplayed_takeIn h now packet)).mpr hwait
      rw [perform, ingest_eq, loop_break (Forwarding.popOnce_waits hnotReady []) 0]
      rfl

/-- All packets are taken in, without end, exactly if the jitter buffer never has as many
as it waits for. -/
theorem returns_iff (rq : RaptorQ) (config : PipelineConfig) (es : List PipelineEvent) :
    (∃ fuel next, es.foldlM (perform rq fuel) (.new config) = some next) ↔
      EachStep (fill rq) (Waits rq config.jitterMin) (.new config) es := by
  have hstart : Unplayed config.jitterMin (RelayPipeline.new config).jitter := ⟨rfl, rfl, rfl⟩
  generalize RelayPipeline.new config = p at hstart ⊢
  constructor
  · rintro ⟨fuel, next, hrun⟩
    induction es generalizing p with
    | nil => trivial
    | cons e es ih =>
        rw [List.foldlM_cons, Option.bind_eq_bind, Option.bind_eq_some_iff] at hrun
        obtain ⟨between, hfirst, hrest⟩ := hrun
        obtain ⟨hwait, rfl⟩ := waits_of_perform hstart hfirst
        exact ⟨hwait, ih _ (unplayed_fill hstart e) hrest⟩
  · intro hwaits
    refine ⟨1, ?_⟩
    induction es generalizing p with
    | nil => exact ⟨p, rfl⟩
    | cons e es ih =>
        obtain ⟨next, hrest⟩ := ih _ (unplayed_fill hstart e) hwaits.2
        refine ⟨next, ?_⟩
        rw [List.foldlM_cons, perform_of_waits hstart hwaits.1]
        exact hrest

/-- One frame makes a block, and one packet is enough to play. -/
def eagerConfig : PipelineConfig :=
  { PipelineConfig.default with
    initialProfile := { QualityProfile.good with framesPerBlock := 1 }
    jitterMin := 1 }

def onlyFrame : MediaPacket := ⟨⟨2, 0, .audio, .opus24k, 0, 0, 0, 0, 0⟩, [1, 0, 7], none⟩

/-- With the first frame that it decodes the pipeline hangs. -/
theorem first_frame_hangs : ¬ ∃ fuel result,
    (RelayPipeline.new eagerConfig).ingest .parity fuel 0 onlyFrame = some result := by
  rintro ⟨fuel, result, hresult⟩
  have hperform : (RelayPipeline.new eagerConfig).perform .parity fuel
      (.ingest 0 onlyFrame) = some result.2 := congrArg (Option.map Prod.snd) hresult
  have hwait : Waits _ 1 _ _ := (waits_of_perform ⟨rfl, rfl, rfl⟩ hperform).1
  exact absurd hwait (by decide +kernel)

end RelayPipeline
end Wzp.Relay
