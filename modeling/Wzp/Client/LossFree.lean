import Mathlib.Data.List.Infix
import Wzp.Client.DecoderSafety
import Wzp.Client.FecLabels

/-!
# A stream without loss

Every packet of the encoder reaches the decoder, in order. Repair packets take
numbers like all the others, but never wait for playout.
-/
namespace Wzp.Client
open Bytes Proto Fec Runs

/-- Both ends of a stream: what was sent, how much of it has been taken in, and
what has been handed to the codec or concealed. -/
structure LossFree where
  enc : CallEncoder
  player : Except Panic CallPlayer
  sent : List MediaPacket
  ingested : ℕ
  decoded : List MediaPacket
  concealed : ℕ

inductive StreamEvent where
  | encodeFrame (frame : CapturedFrame)
  | ingest (now : ℕ) (available : Option ℤ)
  | decodeNext (pcmLen : ℕ) (codec : CodecResults)

namespace LossFree

def start (config decoderConfig : CallConfig) : LossFree :=
  ⟨.new config, .ok (.new decoderConfig), [], 0, [], 0⟩

def encode (rq : RaptorQ) (s : LossFree) (frame : CapturedFrame) : LossFree :=
  { s with
    enc := (s.enc.encodeFrame rq frame).1
    sent := s.sent ++ ((s.enc.encodeFrame rq frame).2).getD [] }

/-- The next packet arrives, if there is one under way. -/
def ingestNext (s : LossFree) (now : ℕ) (available : Option ℤ) : LossFree :=
  match s.sent[s.ingested]? with
  | none => s
  | some packet =>
      { s with
        player := s.player.bind fun p => p.ingest now packet available
        ingested := s.ingested + 1 }

def decode (s : LossFree) (pcmLen : ℕ) (codec : CodecResults) : LossFree :=
  match s.player with
  | .error _ => s
  | .ok p =>
      { s with
        player := (p.decodeNext pcmLen codec).map Prod.snd
        decoded := match p.jitter.pop.1 with
          | .packet packet => s.decoded ++ [packet]
          | .missing _ => s.decoded
          | .notReady => s.decoded
        concealed := match p.jitter.pop.1 with
          | .packet _ => s.concealed
          | .missing _ => s.concealed + 1
          | .notReady => s.concealed }

def step (rq : RaptorQ) (s : LossFree) : StreamEvent → LossFree
  | .encodeFrame frame => s.encode rq frame
  | .ingest now available => s.ingestNext now available
  | .decodeNext pcmLen codec => s.decode pcmLen codec

def isSource (packet : MediaPacket) : Bool := !packet.header.isRepair

/-- The source packets taken in. -/
def sources (s : LossFree) : List MediaPacket := (s.sent.take s.ingested).filter isSource

/-- Nothing was concealed; the packets decoded are the first ones taken in, each
once and in order, and all others still wait. -/
structure Faithful (s : LossFree) : Prop where
  running : CallPlayer.Running s.player
  concealed : s.concealed = 0
  inOrder : s.decoded <+: s.sources
  waiting : ∀ p, s.player = .ok p → s.decoded.length + p.jitter.depth = s.sources.length

/-- A later packet is kept in the buffer once playout starts. -/
def KeepsLater (s : LossFree) : StreamEvent → Prop
  | .decodeNext _ _ => ∀ p, s.player = .ok p → p.jitter.pop.1 = .notReady ∨ 2 ≤ p.jitter.depth
  | _ => True

/-- The buffer has room, the number is not in it, and is not taken for one behind
playout. -/
structure TakesNext (jb : JitterBuffer) (packet : MediaPacket) : Prop where
  room : jb.isFull = false
  new : jb.containsKey packet.header.seq = false
  ahead : jb.initialized = true → seqBefore packet.header.seq jb.nextPlayoutSeq = false

/-- Playout does not stand at the number of a repair packet, the buffer takes the
source packets, and the FEC encoder the frames. -/
def PlainEvent (s : LossFree) : StreamEvent → Prop
  | .encodeFrame _ => s.enc.profile.codec.isOpus = true ∨
      s.enc.fecEnc.sourceSymbols.length < s.enc.fecEnc.framesPerBlock
  | .ingest now _ => ∀ packet ∈ s.sent[s.ingested]?, isSource packet = true →
      ∀ p, s.player = .ok p → TakesNext p.jitter packet ∧ p.jitter.pushPanics now packet = false
  | .decodeNext _ _ => (∀ packet ∈ s.sent[s.decoded.length]?, isSource packet = true) ∧
      ∀ p, s.player = .ok p → p.PlaysAudio

/-! ## Numbers -/

/-- The packets are numbered on from `n`. -/
def NumberedFrom : ℕ → List MediaPacket → Prop
  | _, [] => True
  | n, packet :: rest => packet.header.seq = UInt32.ofNat n ∧ NumberedFrom (n + 1) rest

theorem numberedFrom_append {n : ℕ} {xs ys : List MediaPacket} :
    NumberedFrom n (xs ++ ys) ↔ NumberedFrom n xs ∧ NumberedFrom (n + xs.length) ys := by
  induction xs generalizing n with
  | nil => exact ⟨fun h => ⟨trivial, h⟩, fun h => h.2⟩
  | cons x xs ih =>
      rw [List.cons_append, NumberedFrom, NumberedFrom, ih, List.length_cons, and_assoc,
        Nat.add_right_comm, Nat.add_assoc]

theorem numberedFrom_getElem {n i : ℕ} {xs : List MediaPacket} {x : MediaPacket}
    (h : NumberedFrom n xs) (hx : xs[i]? = some x) : x.header.seq = UInt32.ofNat (n + i) := by
  induction xs generalizing n i with
  | nil => exact absurd hx.symm (Option.some_ne_none x)
  | cons y ys ih =>
      cases i with
      | zero =>
          rw [← Option.some.inj hx]
          exact h.1
      | succ i =>
          have htail := ih h.2 hx
          rwa [Nat.add_assoc, Nat.add_comm 1 i] at htail

variable {rq : RaptorQ} {enc : CallEncoder} {frame : CapturedFrame}

theorem numberedFrom_repairs (enc : CallEncoder) (n : ℕ) (hseq : enc.seq = UInt32.ofNat n)
    (repairs : List (UInt16 × Buf)) (k : ℕ) :
    NumberedFrom (n + k) ((repairs.zipIdx k).map fun (r, i) =>
      enc.repairPacket (enc.seq + UInt32.ofNat i) r.1 r.2) := by
  induction repairs generalizing k with
  | nil => exact trivial
  | cons r repairs ih =>
      refine ⟨?_, ih (k + 1)⟩
      change enc.seq + UInt32.ofNat k = UInt32.ofNat (n + k)
      rw [hseq, UInt32.ofNat_add]

/-- What one frame adds to the stream: packets numbered on from those before,
the first of which is no repair packet. -/
structure Continues (n : ℕ) (enc : CallEncoder) (packets : List MediaPacket) : Prop where
  numbered : NumberedFrom n packets
  next : enc.seq = UInt32.ofNat (n + packets.length)
  begins : ∀ packet ∈ packets.head?, isSource packet = true

theorem isSource_source (enc : CallEncoder) (encoded : Buf) :
    isSource (enc.sourcePacket encoded) = true := by
  unfold isSource CallEncoder.sourcePacket MediaHeader.isRepair
  dsimp only
  split
  · decide
  · decide

theorem isSource_noise (enc : CallEncoder) : isSource enc.comfortNoisePacket = true := by
  unfold isSource CallEncoder.comfortNoisePacket MediaHeader.isRepair
  dsimp only
  decide

/-- What one frame adds to the stream does not begin with a repair packet. -/
theorem encodeFrame_begins : ∀ packet ∈ ((enc.encodeFrame rq frame).2.getD []).head?,
    isSource packet = true := by
  have hbegins : ∀ first rest, isSource first = true →
      ∀ packet ∈ (first :: rest).head?, isSource packet = true := by
    intro first rest hfirst packet hpacket
    rw [← Option.mem_some_iff.mp hpacket]
    exact hfirst
  have hnone : ∀ packet ∈ ([] : List MediaPacket).head?, isSource packet = true :=
    fun _ h => absurd h (Option.not_mem_none _)
  cases hsilent : enc.suppressionEnabled && frame.silent with
  | true =>
      rw [CallEncoder.encodeFrame_silent hsilent, CallEncoder.suppress, Option.getD_some]
      dsimp only
      split
      · exact hbegins _ _ (isSource_noise _)
      · exact hnone
  | false =>
      cases hencoded : frame.encoded with
      | none =>
          rw [CallEncoder.encodeFrame_failed hsilent hencoded]
          exact hnone
      | some encoded =>
          cases hopus : enc.profile.codec.isOpus with
          | true =>
              rw [CallEncoder.encodeFrame_opus hsilent hencoded hopus]
              exact hbegins _ _ (isSource_source _ encoded)
          | false =>
              by_cases hfull : enc.fecEnc.framesPerBlock ≤ enc.fecEnc.sourceSymbols.length
              · rw [CallEncoder.encodeFrame_full hsilent hencoded hopus hfull]
                exact hnone
              · rw [CallEncoder.encodeFrame_codec2 hsilent hencoded hopus hfull]
                split
                · exact hbegins _ _ (isSource_source _ encoded)
                · exact hbegins _ _ (isSource_source _ encoded)

theorem continues_single {n : ℕ} {enc' : CallEncoder} (hseq : enc.seq = UInt32.ofNat n)
    {packet : MediaPacket} (hpacket : packet.header.seq = enc.seq) (hnext : enc'.seq = enc.seq + 1)
    (hsource : isSource packet = true) : Continues n enc' [packet] := by
  refine ⟨⟨hpacket.trans hseq, trivial⟩, ?_, ?_⟩
  · rw [hnext, hseq, List.length_singleton, UInt32.ofNat_add]
    rfl
  · intro first hfirst
    rw [← Option.mem_some_iff.mp hfirst]
    exact hsource

/-- The last frame of a block is followed by the repair packets. -/
theorem continues_block {n : ℕ} {packet : MediaPacket} (hpacket : packet.header.seq = UInt32.ofNat n)
    (hseq : enc.seq = UInt32.ofNat (n + 1)) (hsource : isSource packet = true) :
    Continues n (enc.closeBlock rq).1 (packet :: (enc.closeBlock rq).2) := by
  have hrepairs := numberedFrom_repairs enc (n + 1) hseq
    (enc.fecEnc.generateRepair rq enc.profile.fecRatio) 0
  refine ⟨⟨hpacket, hrepairs⟩, ?_, ?_⟩
  · have hlen : (enc.closeBlock rq).2.length =
        (enc.fecEnc.generateRepair rq enc.profile.fecRatio).length := by
      simp only [CallEncoder.closeBlock, List.length_map, List.length_zipIdx]
    change enc.seq + UInt32.ofNat (enc.fecEnc.generateRepair rq enc.profile.fecRatio).length = _
    rw [List.length_cons, hlen, hseq, ← UInt32.ofNat_add, Nat.add_assoc, Nat.add_comm 1]
  · intro first hfirst
    rw [← Option.mem_some_iff.mp hfirst]
    exact hsource

theorem encodeFrame_continues {n : ℕ} (hseq : enc.seq = UInt32.ofNat n)
    (hroom : enc.profile.codec.isOpus = true ∨
      enc.fecEnc.sourceSymbols.length < enc.fecEnc.framesPerBlock) :
    Continues n (enc.encodeFrame rq frame).1 ((enc.encodeFrame rq frame).2.getD []) := by
  have hnone : ∀ enc' : CallEncoder, enc'.seq = enc.seq → Continues n enc' [] := by
    intro enc' hsame
    exact ⟨trivial, hsame.trans hseq, fun _ h => absurd h (Option.not_mem_none _)⟩
  cases hsilent : enc.suppressionEnabled && frame.silent with
  | true =>
      rw [CallEncoder.encodeFrame_silent hsilent, CallEncoder.suppress, Option.getD_some]
      dsimp only
      split
      · exact continues_single hseq rfl rfl (isSource_noise _)
      · exact hnone _ rfl
  | false =>
      cases hencoded : frame.encoded with
      | none =>
          rw [CallEncoder.encodeFrame_failed hsilent hencoded]
          exact hnone _ rfl
      | some encoded =>
          cases hopus : enc.profile.codec.isOpus with
          | true =>
              rw [CallEncoder.encodeFrame_opus hsilent hencoded hopus]
              exact continues_single hseq rfl rfl (isSource_source _ encoded)
          | false =>
              have hlt : ¬ enc.fecEnc.framesPerBlock ≤ enc.fecEnc.sourceSymbols.length := by
                cases hroom with
                | inl h => exact absurd (hopus.symm.trans h) Bool.false_ne_true
                | inr h => omega
              rw [CallEncoder.encodeFrame_codec2 hsilent hencoded hopus hlt]
              split
              · have hnext : (enc.withSymbol encoded).seq = UInt32.ofNat (n + 1) := by
                  change enc.seq + 1 = UInt32.ofNat (n + 1)
                  rw [hseq, UInt32.ofNat_add]
                  rfl
                exact continues_block hseq hnext (isSource_source _ encoded)
              · exact continues_single hseq rfl rfl (isSource_source _ encoded)

/-! ## Invariant -/

/-- The source packets taken in behind the first `n` packets. -/
def sourcesFrom (s : LossFree) (n : ℕ) : List MediaPacket :=
  ((s.sent.take s.ingested).drop n).filter isSource

structure Sent (s : LossFree) : Prop where
  numbered : NumberedFrom 0 s.sent
  next : s.enc.seq = UInt32.ofNat s.sent.length
  begins : ∀ packet ∈ s.sent.head?, isSource packet = true
  taken : s.ingested ≤ s.sent.length

/-- The packets decoded are the first ones sent, and the buffer holds the other
source packets taken in. -/
structure Played (s : LossFree) (p : CallPlayer) : Prop where
  player : s.player = .ok p
  concealed : s.concealed = 0
  decoded : s.decoded = s.sent.take s.decoded.length
  sources : ∀ packet ∈ s.decoded, isSource packet = true
  behind : s.decoded.length ≤ s.ingested
  formed : 1 ≤ p.jitter.maxDepth → p.jitter.Formed
  used : p.jitter.initialized = true →
    1 ≤ p.jitter.maxDepth ∧ p.jitter.nextPlayoutSeq = UInt32.ofNat s.decoded.length
  unused : p.jitter.initialized = false → s.ingested = 0
  waits : (p.jitter.buffer.map Prod.snd).Perm (s.sourcesFrom s.decoded.length)

variable {s : LossFree} {p : CallPlayer} {n : ℕ}

theorem sources_eq (h : Played s p) : s.sources = s.decoded ++ s.sourcesFrom s.decoded.length := by
  have hdecoded : ((s.sent.take s.ingested).take s.decoded.length).filter isSource = s.decoded := by
    rw [List.take_take, Nat.min_eq_left h.behind, ← h.decoded]
    exact List.filter_eq_self.mpr h.sources
  calc s.sources = ((s.sent.take s.ingested).take s.decoded.length ++
        (s.sent.take s.ingested).drop s.decoded.length).filter isSource := by
          rw [List.take_append_drop, sources]
    _ = s.decoded ++ s.sourcesFrom s.decoded.length := by
          rw [List.filter_append, hdecoded, sourcesFrom]

theorem faithful_of_played (h : Played s p) : Faithful s := by
  refine ⟨?_, h.concealed, ?_, ?_⟩
  · rw [h.player]
    rfl
  · rw [sources_eq h]
    exact List.prefix_append _ _
  · intro q hq
    obtain rfl := Except.ok.inj (h.player.symm.trans hq)
    have hlen := h.waits.length_eq
    rw [List.length_map] at hlen
    rw [sources_eq h, List.length_append, ← hlen, JitterBuffer.depth]

theorem start_sent (config decoderConfig : CallConfig) : Sent (start config decoderConfig) :=
  ⟨trivial, rfl, fun _ h => absurd h (Option.not_mem_none _), Nat.le_refl 0⟩

theorem start_played (config decoderConfig : CallConfig) :
    Played (start config decoderConfig) (.new decoderConfig) := by
  have hjitter : (CallPlayer.new decoderConfig).jitter = if decoderConfig.adaptiveJitter
      then .newAdaptive decoderConfig.jitterMin decoderConfig.jitterMax
      else .new decoderConfig.jitterTarget decoderConfig.jitterMax decoderConfig.jitterMin := rfl
  have hempty : (CallPlayer.new decoderConfig).jitter.buffer = [] ∧
      (CallPlayer.new decoderConfig).jitter.initialized = false ∧
      (CallPlayer.new decoderConfig).jitter.stats.packetsPlayed = 0 := by
    rw [hjitter]
    split
    · exact ⟨rfl, rfl, rfl⟩
    · exact ⟨rfl, rfl, rfl⟩
  obtain ⟨hbuffer, hinit, hplayed⟩ := hempty
  refine ⟨rfl, rfl, rfl, fun _ h => absurd h List.not_mem_nil, Nat.le_refl 0, fun hroom => ?_,
    fun hused => ?_, fun _ => rfl, ?_⟩
  · refine ⟨?_, ?_, hroom, ?_, fun _ => ⟨hbuffer, hplayed⟩⟩
    · rw [hbuffer]
      exact List.Pairwise.nil
    · rw [hbuffer]
      exact fun e he => absurd he List.not_mem_nil
    · rw [JitterBuffer.depth, hbuffer]
      exact Nat.zero_le _
  · exact absurd (hinit.symm.trans hused) Bool.false_ne_true
  · rw [hbuffer]
    exact List.Perm.refl []

/-! ## Sending and taking in -/

theorem sent_encode (h : Sent s) (hplain : PlainEvent s (.encodeFrame frame)) :
    Sent (s.encode rq frame) := by
  have hcontinues : Continues s.sent.length (s.encode rq frame).enc
      ((s.enc.encodeFrame rq frame).2.getD []) := encodeFrame_continues h.next hplain
  refine ⟨?_, ?_, ?_, ?_⟩
  · refine numberedFrom_append.mpr ⟨h.numbered, ?_⟩
    rw [Nat.zero_add]
    exact hcontinues.numbered
  · rw [hcontinues.next, encode, List.length_append]
  · intro packet hpacket
    cases hsent : s.sent with
    | nil =>
        apply hcontinues.begins packet
        rw [encode, hsent, List.nil_append] at hpacket
        exact hpacket
    | cons x rest =>
        apply h.begins packet
        rw [encode, hsent] at hpacket
        rw [hsent]
        exact hpacket
  · rw [encode, List.length_append]
    exact h.taken.trans (Nat.le_add_right _ _)

theorem played_encode (hsent : Sent s) (h : Played s p) : Played (s.encode rq frame) p := by
  have htake : ∀ n, n ≤ s.ingested → (s.encode rq frame).sent.take n = s.sent.take n := by
    intro n hn
    exact List.take_append_of_le_length (hn.trans hsent.taken)
  refine ⟨h.player, h.concealed, ?_, h.sources, h.behind, h.formed, h.used, h.unused, ?_⟩
  · have heq := htake s.decoded.length h.behind
    exact h.decoded.trans heq.symm
  · have heq := htake s.ingested (Nat.le_refl _)
    change (p.jitter.buffer.map Prod.snd).Perm
      ((((s.encode rq frame).sent.take s.ingested).drop s.decoded.length).filter isSource)
    rw [heq]
    exact h.waits

variable {x : MediaPacket} {now : ℕ} {available : Option ℤ}

theorem sourcesFrom_succ (hx : s.sent[s.ingested]? = some x) (hbehind : n ≤ s.ingested) :
    (((s.sent.take (s.ingested + 1)).drop n).filter isSource) =
      s.sourcesFrom n ++ [x].filter isSource := by
  obtain ⟨hlt, -⟩ := List.getElem?_eq_some_iff.mp hx
  have htake : s.sent.take (s.ingested + 1) = s.sent.take s.ingested ++ [x] := by
    rw [List.take_add_one, hx]
    rfl
  have hlen : n ≤ (s.sent.take s.ingested).length := by
    rw [List.length_take]
    omega
  rw [htake, List.drop_append_of_le_length hlen, List.filter_append, sourcesFrom]

/-- A source packet joins those that wait, and playout stays where it is. -/
theorem push_waits (h : p.jitter.Formed) (htakes : TakesNext p.jitter x) (now : ℕ) :
    (p.jitter.push now x).maxDepth = p.jitter.maxDepth ∧
      (p.jitter.push now x).initialized = true ∧ (p.jitter.push now x).Formed ∧
      ((p.jitter.push now x).buffer.map Prod.snd).Perm (x :: p.jitter.buffer.map Prod.snd) ∧
      (p.jitter.push now x).nextPlayoutSeq =
        if p.jitter.initialized then p.jitter.nextPlayoutSeq else x.header.seq := by
  obtain ⟨hcounted, hpushed⟩ := JitterBuffer.pushTuned_pushed h (JitterBuffer.tune_tunes now x)
  have hformed := JitterBuffer.formed_pushed h hcounted hpushed
  have hnotLate : p.jitter.initialized = true → p.jitter.isLate x.header.seq = false := by
    intro hinit
    rw [JitterBuffer.isLate, htakes.ahead hinit, Bool.and_false]
  have hjoins : p.jitter.initialized = true → p.jitter.joins x.header.seq = true := by
    intro hinit
    rw [JitterBuffer.joins, hinit, htakes.new, hnotLate hinit]
    rfl
  refine ⟨hcounted.maxDepth, hcounted.initialized, hformed, ?_⟩
  cases hpushed with
  | first unused buffer next =>
      have hnil := (h.unused unused).1
      refine ⟨?_, ?_⟩
      · change ((p.jitter.pushTuned x _).buffer.map Prod.snd).Perm _
        rw [buffer, hnil]
        exact List.Perm.refl _
      · rw [unused]
        exact next
  | ignored known initialized buffer next =>
      exact absurd (known.1.symm.trans (hjoins initialized)) Bool.false_ne_true
  | renewed sender buffer next =>
      have hlate : p.jitter.isLate x.header.seq = true := by
        simp only [JitterBuffer.isNewSender, Bool.and_eq_true] at sender
        exact sender.1.2
      have hinit : p.jitter.initialized = true := by
        simp only [JitterBuffer.isLate, Bool.and_eq_true] at hlate
        exact hlate.1.1
      exact absurd ((hnotLate hinit).symm.trans hlate) Bool.false_ne_true
  | joined joins room buffer next =>
      have hinit := (JitterBuffer.joins_spec joins).1
      have hnew := (JitterBuffer.joins_spec joins).2.1
      refine ⟨?_, ?_⟩
      · change ((p.jitter.pushTuned x _).buffer.map Prod.snd).Perm _
        rw [buffer]
        exact (JitterBuffer.insertSorted_perm x hnew).map Prod.snd
      · rw [hinit, if_pos rfl]
        refine next.trans ?_
        rw [JitterBuffer.startWith, htakes.ahead hinit, Bool.and_false]
        rfl
  | displaced joins full buffer next =>
      exact absurd (htakes.room.symm.trans full) Bool.false_ne_true

/-- A repair packet leaves the buffer alone. -/
theorem ingest_repair (p : CallPlayer) (now : ℕ) (available : Option ℤ)
    (hrepair : isSource x = false) :
    ∃ q : CallPlayer, p.ingest now x available = .ok q ∧ q.jitter = p.jitter := by
  have hflag : x.header.isRepair = true := (Bool.not_eq_false' ..).mp hrepair
  refine ⟨{ p.parseDred x available with dec := p.dec.ingest now x }, ?_, ?_⟩
  · rw [CallPlayer.ingest, hflag]
    rfl
  · change (if x.header.isRepair then p.jitter else p.jitter.push now x) = p.jitter
    rw [hflag]
    rfl

theorem ingest_source (available : Option ℤ) (hsource : isSource x = true)
    (hrange : p.jitter.pushPanics now x = false) :
    ∃ q : CallPlayer, p.ingest now x available = .ok q ∧ q.jitter = p.jitter.push now x := by
  have hflag : x.header.isRepair = false := (Bool.not_eq_true' ..).mp hsource
  refine ⟨{ p.parseDred x available with dec := p.dec.ingest now x }, ?_, ?_⟩
  · rw [CallPlayer.ingest, hrange, Bool.and_false]
    rfl
  · change (if x.header.isRepair then p.jitter else p.jitter.push now x) = p.jitter.push now x
    rw [hflag]
    rfl

theorem ingestNext_some (hx : s.sent[s.ingested]? = some x) (hplayer : s.player = .ok p)
    {q : CallPlayer} (hq : p.ingest now x available = .ok q) :
    s.ingestNext now available = { s with player := .ok q, ingested := s.ingested + 1 } := by
  have hbind : (s.player.bind fun p => p.ingest now x available) = .ok q := by
    rw [hplayer]
    exact hq
  simp only [ingestNext, hx, hbind]

/-- A repair packet leaves the buffer alone. It is not the first packet, so playout has a
place already. -/
theorem played_repair (hsent : Sent s) (h : Played s p) (hx : s.sent[s.ingested]? = some x)
    (hsource : isSource x = false) {q : CallPlayer} (hjitter : q.jitter = p.jitter) :
    Played { s with player := .ok q, ingested := s.ingested + 1 } q := by
  have hwaits := sourcesFrom_succ hx h.behind
  have hdropped : [x].filter isSource = [] := by
    rw [List.filter_cons, hsource]
    rfl
  rw [hdropped, List.append_nil] at hwaits
  have hstarted : p.jitter.initialized = true := by
    cases hinit : p.jitter.initialized with
    | true => rfl
    | false =>
        have hhead : x ∈ s.sent.head? := by
          rw [List.head?_eq_getElem?]
          rw [h.unused hinit] at hx
          exact hx
        exact absurd (hsource.symm.trans (hsent.begins x hhead)) Bool.false_ne_true
  refine ⟨rfl, h.concealed, h.decoded, h.sources, h.behind.trans (Nat.le_succ _), ?_, ?_, ?_, ?_⟩
  · rw [hjitter]
    exact h.formed
  · rw [hjitter]
    exact h.used
  · rw [hjitter]
    exact fun hinit => absurd (hinit.symm.trans hstarted) Bool.false_ne_true
  · rw [hjitter]
    refine h.waits.trans ?_
    rw [← hwaits]
    exact List.Perm.refl _

/-- A source packet joins those that wait. -/
theorem played_source (hsent : Sent s) (h : Played s p) (hx : s.sent[s.ingested]? = some x)
    (hsource : isSource x = true) (htakes : TakesNext p.jitter x) {q : CallPlayer}
    (hjitter : q.jitter = p.jitter.push now x) :
    Played { s with player := .ok q, ingested := s.ingested + 1 } q := by
  have hwaits := sourcesFrom_succ hx h.behind
  have hkept : [x].filter isSource = [x] := by
    rw [List.filter_cons, hsource]
    rfl
  rw [hkept] at hwaits
  have hseq := numberedFrom_getElem hsent.numbered hx
  rw [Nat.zero_add] at hseq
  have hroom : 1 ≤ p.jitter.maxDepth := by
    have hless : ¬ p.jitter.maxDepth ≤ p.jitter.depth := of_decide_eq_false htakes.room
    omega
  obtain ⟨hmax, hinit, hformed, hperm, hnext⟩ := push_waits (h.formed hroom) htakes now
  refine ⟨rfl, h.concealed, h.decoded, h.sources, h.behind.trans (Nat.le_succ _), ?_, ?_, ?_, ?_⟩
  · rw [hjitter]
    exact fun _ => hformed
  · rw [hjitter, hmax, hnext]
    refine fun _ => ⟨hroom, ?_⟩
    cases hold : p.jitter.initialized with
    | true => exact (h.used hold).2
    | false =>
        have hzero := h.unused hold
        have hnone : s.decoded.length = 0 := Nat.le_zero.mp (hzero ▸ h.behind)
        change x.header.seq = UInt32.ofNat s.decoded.length
        rw [hseq, hzero, hnone]
  · rw [hjitter]
    exact fun hnot => absurd (hnot.symm.trans hinit) Bool.false_ne_true
  · rw [hjitter]
    refine hperm.trans ((h.waits.cons x).trans ?_)
    change (x :: s.sourcesFrom s.decoded.length).Perm
      (((s.sent.take (s.ingested + 1)).drop s.decoded.length).filter isSource)
    rw [hwaits]
    exact (List.perm_append_singleton x _).symm

theorem played_ingest (hsent : Sent s) (h : Played s p)
    (hplain : PlainEvent s (.ingest now available)) :
    ∃ q, Played (s.ingestNext now available) q := by
  cases hx : s.sent[s.ingested]? with
  | none =>
      have hsame : s.ingestNext now available = s := by
        simp only [ingestNext, hx]
      rw [hsame]
      exact ⟨p, h⟩
  | some x =>
      cases hsource : isSource x with
      | false =>
          obtain ⟨q, hq, hjitter⟩ := ingest_repair p now available hsource
          rw [ingestNext_some hx h.player hq]
          exact ⟨q, played_repair hsent h hx hsource hjitter⟩
      | true =>
          obtain ⟨htakes, hrange⟩ := hplain x hx hsource p h.player
          obtain ⟨q, hq, hjitter⟩ := ingest_source available hsource hrange
          rw [ingestNext_some hx h.player hq]
          exact ⟨q, played_source hsent h hx hsource htakes hjitter⟩

/-! ## Decoding -/

theorem recorded_same {jb jb' : JitterBuffer} (h : CallPlayer.Recorded jb jb') :
    jb'.buffer = jb.buffer ∧ jb'.nextPlayoutSeq = jb.nextPlayoutSeq ∧
      jb'.maxDepth = jb.maxDepth ∧ jb'.initialized = jb.initialized ∧ (jb.Formed → jb'.Formed) := by
  obtain rfl | rfl | rfl := h
  · exact ⟨rfl, rfl, rfl, rfl, id⟩
  · exact ⟨rfl, rfl, rfl, rfl, fun hformed => JitterBuffer.formed_apply hformed .recordDecode⟩
  · exact ⟨rfl, rfl, rfl, rfl, fun hformed => JitterBuffer.formed_apply hformed .recordUnderrun⟩

/-- In a sorted map a number has one packet. -/
theorem filter_key {entries : List (UInt32 × MediaPacket)} {k : UInt32}
    (hsorted : entries.Pairwise fun a b => a.1 < b.1) (h : (k, x) ∈ entries) :
    (entries.filter fun e => e.1 = k) = [(k, x)] := by
  induction entries with
  | nil => exact absurd h List.not_mem_nil
  | cons e rest ih =>
      obtain ⟨hhead, htail⟩ := List.pairwise_cons.mp hsorted
      cases List.mem_cons.mp h with
      | inl heq =>
          have hnone : (rest.filter fun e => e.1 = k) = [] := by
            refine List.filter_eq_nil_iff.mpr fun f hf hkey => ?_
            have hlt := hhead f hf
            rw [of_decide_eq_true hkey, ← heq] at hlt
            exact UInt32.lt_irrefl _ hlt
          rw [← heq, List.filter_cons, if_pos (decide_eq_true rfl), hnone]
      | inr hmem =>
          have hne : ¬ decide (e.1 = k) = true := by
            intro hkey
            have hlt := hhead (k, x) hmem
            rw [of_decide_eq_true hkey] at hlt
            exact UInt32.lt_irrefl _ hlt
          rw [List.filter_cons, if_neg hne]
          exact ih htail hmem

theorem perm_key {entries : List (UInt32 × MediaPacket)} {k : UInt32}
    (hsorted : entries.Pairwise fun a b => a.1 < b.1) (h : (k, x) ∈ entries) :
    entries.Perm ((k, x) :: entries.filter fun e => e.1 ≠ k) := by
  have hsplit := List.filter_append_perm (fun e : UInt32 × MediaPacket => decide (e.1 = k)) entries
  rw [filter_key hsorted h] at hsplit
  have hnot : (entries.filter fun e => !decide (e.1 = k)) = entries.filter fun e => e.1 ≠ k := by
    congr 1
    funext e
    exact decide_not.symm
  rw [hnot] at hsplit
  exact hsplit.symm

/-- Where playout stands there is a source packet, and it waits. -/
theorem Played.due (hsent : Sent s) (h : Played s p) (hdepth : 0 < p.jitter.depth)
    (hplain : ∀ packet ∈ s.sent[s.decoded.length]?, isSource packet = true)
    (hinit : p.jitter.initialized = true) :
    ∃ x, s.sent[s.decoded.length]? = some x ∧ isSource x = true ∧ s.decoded.length < s.ingested ∧
      (p.jitter.nextPlayoutSeq, x) ∈ p.jitter.buffer ∧
      s.sourcesFrom s.decoded.length = x :: s.sourcesFrom (s.decoded.length + 1) := by
  have hlen := h.waits.length_eq
  rw [List.length_map] at hlen
  have hbehind : s.decoded.length < s.ingested := by
    refine Nat.lt_of_not_le fun hle => ?_
    have hnil : (s.sent.take s.ingested).drop s.decoded.length = [] := by
      apply List.drop_eq_nil_of_le
      rw [List.length_take]
      omega
    rw [sourcesFrom, hnil, List.filter_nil, List.length_nil] at hlen
    rw [JitterBuffer.depth] at hdepth
    omega
  have hlt : s.decoded.length < s.sent.length := hbehind.trans_le hsent.taken
  have hx : s.sent[s.decoded.length]? = some (s.sent[s.decoded.length]) :=
    List.getElem?_eq_getElem hlt
  have hsource := hplain _ hx
  have hfrom : s.sourcesFrom s.decoded.length =
      s.sent[s.decoded.length] :: s.sourcesFrom (s.decoded.length + 1) := by
    have hlt' : s.decoded.length < (s.sent.take s.ingested).length := by
      rw [List.length_take]
      omega
    rw [sourcesFrom, List.drop_eq_getElem_cons hlt', List.getElem_take, List.filter_cons, hsource,
      if_pos rfl, sourcesFrom]
  refine ⟨s.sent[s.decoded.length], hx, hsource, hbehind, ?_, hfrom⟩
  have hmem : s.sent[s.decoded.length] ∈ p.jitter.buffer.map Prod.snd := by
    rw [h.waits.mem_iff, hfrom]
    exact List.mem_cons_self
  obtain ⟨e, he, heq⟩ := List.mem_map.mp hmem
  obtain ⟨hroom, hnext⟩ := h.used hinit
  have hkey : e.1 = p.jitter.nextPlayoutSeq := by
    rw [(h.formed hroom).labelled e he, heq, hnext, numberedFrom_getElem hsent.numbered hx,
      Nat.zero_add]
  rw [← hkey, ← heq]
  exact he

theorem due_of_ready (hsent : Sent s) (h : Played s p) {pcmLen : ℕ} {codec : CodecResults}
    (hkeeps : KeepsLater s (.decodeNext pcmLen codec))
    (hplain : ∀ packet ∈ s.sent[s.decoded.length]?, isSource packet = true)
    (hready : p.jitter.pop.1 ≠ .notReady) :
    ∃ x, s.sent[s.decoded.length]? = some x ∧ isSource x = true ∧ s.decoded.length < s.ingested ∧
      (p.jitter.nextPlayoutSeq, x) ∈ p.jitter.buffer ∧
      s.sourcesFrom s.decoded.length = x :: s.sourcesFrom (s.decoded.length + 1) := by
  have hdepth : 0 < p.jitter.depth := by
    cases hkeeps p h.player with
    | inl hwaits => exact absurd hwaits hready
    | inr htwo => omega
  exact h.due hsent hdepth hplain (JitterBuffer.pop_ready_iff.mp hready).1

theorem decode_ok (hplayer : s.player = .ok p) {pcmLen : ℕ} {codec : CodecResults}
    {r : Option ℕ × CallPlayer} (hr : p.decodeNext pcmLen codec = .ok r) :
    s.decode pcmLen codec = { s with
      player := .ok r.2
      decoded := match p.jitter.pop.1 with
        | .packet packet => s.decoded ++ [packet]
        | .missing _ => s.decoded
        | .notReady => s.decoded
      concealed := match p.jitter.pop.1 with
        | .packet _ => s.concealed
        | .missing _ => s.concealed + 1
        | .notReady => s.concealed } := by
  unfold decode
  rw [hplayer]
  dsimp only
  rw [hr]
  rfl

/-- The packet at which playout stands is played. -/
theorem played_plays (h : Played s p) (hinit : p.jitter.initialized = true)
    (hx : s.sent[s.decoded.length]? = some x) (hsource : isSource x = true)
    (hbehind : s.decoded.length < s.ingested) (hmem : (p.jitter.nextPlayoutSeq, x) ∈ p.jitter.buffer)
    (hfrom : s.sourcesFrom s.decoded.length = x :: s.sourcesFrom (s.decoded.length + 1))
    {q : CallPlayer} (hformed : 1 ≤ q.jitter.maxDepth → q.jitter.Formed)
    (hmax : q.jitter.maxDepth = p.jitter.maxDepth)
    (hinit' : q.jitter.initialized = p.jitter.initialized)
    (hnext : q.jitter.nextPlayoutSeq = p.jitter.nextPlayoutSeq + 1)
    (hbuffer : q.jitter.buffer = p.jitter.buffer.filter fun e => e.1 ≠ p.jitter.nextPlayoutSeq) :
    Played { s with player := .ok q, decoded := s.decoded ++ [x] } q := by
  obtain ⟨hroom, hseq⟩ := h.used hinit
  have hlen : (s.decoded ++ [x]).length = s.decoded.length + 1 := by
    rw [List.length_append, List.length_singleton]
  refine ⟨rfl, h.concealed, ?_, ?_, ?_, hformed, ?_, ?_, ?_⟩
  · change s.decoded ++ [x] = s.sent.take (s.decoded ++ [x]).length
    rw [hlen, List.take_add_one, hx, ← h.decoded]
    rfl
  · intro y hy
    cases List.mem_append.mp hy with
    | inl hold => exact h.sources y hold
    | inr hnew =>
        rw [List.mem_singleton.mp hnew]
        exact hsource
  · change (s.decoded ++ [x]).length ≤ s.ingested
    rw [hlen]
    exact hbehind
  · rw [hinit', hmax, hnext]
    refine fun _ => ⟨hroom, ?_⟩
    change p.jitter.nextPlayoutSeq + 1 = UInt32.ofNat (s.decoded ++ [x]).length
    rw [hlen, hseq, UInt32.ofNat_add]
    rfl
  · rw [hinit']
    exact fun hnot => absurd (hnot.symm.trans hinit) Bool.false_ne_true
  · rw [hbuffer]
    change ((p.jitter.buffer.filter fun e => e.1 ≠ p.jitter.nextPlayoutSeq).map Prod.snd).Perm
      (s.sourcesFrom (s.decoded ++ [x]).length)
    have hperm := ((perm_key (h.formed hroom).sorted hmem).map Prod.snd).symm.trans h.waits
    rw [hfrom, List.map_cons] at hperm
    rw [hlen]
    exact (List.perm_cons x).mp hperm

theorem played_decode (hsent : Sent s) (h : Played s p) {pcmLen : ℕ} {codec : CodecResults}
    (hkeeps : KeepsLater s (.decodeNext pcmLen codec))
    (hplain : PlainEvent s (.decodeNext pcmLen codec)) :
    ∃ q, Played (s.decode pcmLen codec) q := by
  have hok := (CallPlayer.decodeNext_running p pcmLen codec).mpr (hplain.2 p h.player)
  cases hr : p.decodeNext pcmLen codec with
  | error panic =>
      rw [hr] at hok
      exact absurd hok Bool.false_ne_true
  | ok r =>
      obtain ⟨hbuffer, hnext, hmax, hinit, hformed⟩ := recorded_same (CallPlayer.decodeNext_recorded hr)
      rw [JitterBuffer.pop_maxDepth] at hmax
      rw [JitterBuffer.pop_initialized] at hinit
      have hformed' : 1 ≤ r.2.jitter.maxDepth → r.2.jitter.Formed := by
        rw [hmax]
        exact fun hroom => hformed (JitterBuffer.formed_popped (h.formed hroom))
      rw [decode_ok h.player hr]
      cases JitterBuffer.pop_popped p.jitter with
      | waits waits same =>
          rw [same] at hbuffer hnext
          rw [waits]
          refine ⟨r.2, rfl, h.concealed, h.decoded, h.sources, h.behind, hformed', ?_, ?_, ?_⟩
          · rw [hinit, hmax, hnext]
            exact h.used
          · rw [hinit]
            exact h.unused
          · rw [hbuffer]
            exact h.waits
      | plays packet plays held buffer next =>
          have hready : p.jitter.pop.1 ≠ .notReady := by
            rw [plays]
            exact fun heq => PlayoutResult.noConfusion heq
          have hstarted := (JitterBuffer.pop_ready_iff.mp hready).1
          obtain ⟨x, hx, hsource, hbehind, hmem, hfrom⟩ := due_of_ready hsent h hkeeps hplain.1 hready
          have hpacket : packet = x := by
            have hsorted := (h.formed (h.used hstarted).1).sorted
            have hone := (filter_key hsorted held).symm.trans (filter_key hsorted hmem)
            exact congrArg Prod.snd (List.head_eq_of_cons_eq hone)
          rw [plays, hpacket]
          exact ⟨r.2, played_plays h hstarted hx hsource hbehind hmem hfrom hformed' hmax hinit
            (hnext.trans next) (hbuffer.trans buffer)⟩
      | conceals conceals absent buffer next =>
          have hready : p.jitter.pop.1 ≠ .notReady := by
            rw [conceals]
            exact fun heq => PlayoutResult.noConfusion heq
          obtain ⟨x, -, -, -, hmem, -⟩ := due_of_ready hsent h hkeeps hplain.1 hready
          exact absurd rfl (absent _ hmem)

/-! ## Runs -/

theorem faithful_step {s : LossFree} {e : StreamEvent} (hkeeps : KeepsLater s e)
    (hplain : PlainEvent s e) (h : Sent s ∧ ∃ p, Played s p) :
    Sent (step rq s e) ∧ ∃ p, Played (step rq s e) p := by
  obtain ⟨hsent, p, hplayed⟩ := h
  cases e with
  | encodeFrame frame => exact ⟨sent_encode hsent hplain, p, played_encode hsent hplayed⟩
  | ingest now available =>
      refine ⟨?_, played_ingest hsent hplayed hplain⟩
      change Sent (s.ingestNext now available)
      unfold ingestNext
      split
      · exact hsent
      · rename_i x hx
        obtain ⟨hlt, -⟩ := List.getElem?_eq_some_iff.mp hx
        exact ⟨hsent.numbered, hsent.next, hsent.begins, hlt⟩
  | decodeNext pcmLen codec =>
      refine ⟨?_, played_decode hsent hplayed hkeeps hplain⟩
      change Sent (s.decode pcmLen codec)
      unfold decode
      split
      · exact hsent
      · exact ⟨hsent.numbered, hsent.next, hsent.begins, hsent.taken⟩

/-- A loss-free stream plays without concealment as long as playout does not come
to the number of a repair packet and the buffer takes every source packet. -/
theorem faithful_throughout (rq : RaptorQ) (config decoderConfig : CallConfig)
    (es : List StreamEvent) (hkeeps : EachStep (step rq) KeepsLater (start config decoderConfig) es)
    (hplain : EachStep (step rq) PlainEvent (start config decoderConfig) es) :
    Throughout (step rq) Faithful (start config decoderConfig) es := by
  have hboth := eachStep_and.mpr ⟨hkeeps, hplain⟩
  have hstart : Sent (start config decoderConfig) ∧ ∃ p, Played (start config decoderConfig) p :=
    ⟨start_sent config decoderConfig, _, start_played config decoderConfig⟩
  have hstep : ∀ (s : LossFree) (e : StreamEvent), (Sent s ∧ ∃ p, Played s p) →
      (KeepsLater s e ∧ PlainEvent s e) → Sent (step rq s e) ∧ ∃ p, Played (step rq s e) p :=
    fun s e h hok => faithful_step hok.1 hok.2 h
  refine (throughout_of_eachStep hstep hstart hboth).mono fun s h => ?_
  obtain ⟨-, p, hplayed⟩ := h
  exact faithful_of_played hplayed

/-! ## Two streams -/

instance decidableForallOk {P : CallPlayer → Prop} [DecidablePred P] :
    (player : Except Panic CallPlayer) → Decidable (∀ p, player = .ok p → P p)
  | .ok p => decidable_of_iff (P p) ⟨fun h q hq => Except.ok.inj hq ▸ h, fun h => h p rfl⟩
  | .error _ => isTrue fun q hq => by cases hq

instance (s : LossFree) : (e : StreamEvent) → Decidable (KeepsLater s e)
  | .encodeFrame _ => isTrue trivial
  | .ingest _ _ => isTrue trivial
  | .decodeNext _ _ => inferInstanceAs (Decidable (∀ p, s.player = .ok p →
      p.jitter.pop.1 = .notReady ∨ 2 ≤ p.jitter.depth))

instance (jb : JitterBuffer) (packet : MediaPacket) : Decidable (TakesNext jb packet) :=
  decidable_of_iff (jb.isFull = false ∧ jb.containsKey packet.header.seq = false ∧
      (jb.initialized = true → seqBefore packet.header.seq jb.nextPlayoutSeq = false))
    ⟨fun h => ⟨h.1, h.2.1, h.2.2⟩, fun h => ⟨h.1, h.2, h.3⟩⟩

instance (s : LossFree) : (e : StreamEvent) → Decidable (PlainEvent s e)
  | .encodeFrame _ => inferInstanceAs (Decidable (s.enc.profile.codec.isOpus = true ∨
      s.enc.fecEnc.sourceSymbols.length < s.enc.fecEnc.framesPerBlock))
  | .ingest now _ => inferInstanceAs (Decidable (∀ packet ∈ s.sent[s.ingested]?,
      isSource packet = true → ∀ p, s.player = .ok p →
        TakesNext p.jitter packet ∧ p.jitter.pushPanics now packet = false))
  | .decodeNext _ _ => inferInstanceAs (Decidable
      ((∀ packet ∈ s.sent[s.decoded.length]?, isSource packet = true) ∧
        ∀ p, s.player = .ok p → p.PlaysAudio))

/-- A decoder that begins to play with the first packet. -/
def promptConfig : CallConfig := { CallConfig.default with jitterMin := 1, adaptiveJitter := false }

/-- All frames are sent and taken in, then as many decoded as asked for. -/
def batch (frames packets decodes : ℕ) : List StreamEvent :=
  List.replicate frames (.encodeFrame ⟨false, some [1, 2, 3, 4, 5, 6]⟩) ++
    (List.replicate packets (.ingest 0 none) ++
      List.replicate decodes (.decodeNext 1920 ⟨true, some 1920, some 1920, none⟩))

/-- The frames of one block play, and the repair packets behind them do no harm. -/
theorem block_faithful : Throughout (step .parity) Faithful
    (start { CallConfig.default with profile := .catastrophic } promptConfig) (batch 8 16 7) :=
  faithful_throughout .parity _ promptConfig _ (by decide +kernel) (by decide +kernel)

/-- Behind the first block of eight frames playout comes to a repair packet. -/
theorem repair_concealed :
    EachStep (step .parity) KeepsLater
      (start { CallConfig.default with profile := .catastrophic } promptConfig) (batch 10 18 9) ∧
    ¬ Throughout (step .parity) Faithful
      (start { CallConfig.default with profile := .catastrophic } promptConfig) (batch 10 18 9) := by
  refine ⟨by decide +kernel, fun h => ?_⟩
  have hconcealed : (run (step .parity)
    (start { CallConfig.default with profile := .catastrophic } promptConfig)
      (batch 10 18 9)).concealed = 1 := by decide +kernel
  exact absurd (hconcealed.symm.trans h.last.concealed) (by decide)

end LossFree
end Wzp.Client
