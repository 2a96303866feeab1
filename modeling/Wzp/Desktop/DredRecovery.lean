import Wzp.Desktop.SendLoop

/-!
# Concealment of lost audio

Between a packet and the number expected after the last one, up to 16 frames are
concealed before the packet is decoded: from the redundancy of the last packet that
had some, or by the codec alone. Whatever arrives moves the expected number.
-/
namespace Wzp.Desktop
open Bytes Proto

def maxGapFrames : UInt32 := 16

/-- What was parsed last, with the number of samples it reaches back. -/
structure DredState where
  samplesAvailable : ℤ
  parsedFrom : Option Buf
  deriving DecidableEq, Repr

/-- The decoder over libopus: what it finds in a packet, and whether its calls succeed. -/
structure AudioDecoder (σ : Type) where
  dredParse : Buf → ℤ
  setProfile : σ → QualityProfile → σ
  reconstructFromDred : σ → DredState → ℤ → σ × Bool
  decodeLost : σ → σ × Bool
  decode : σ → Buf → σ × Bool

/-- What the receive task does, as far as it can be told from outside. -/
inductive AudioAction where
  | arrive (seq : UInt32)
  | reconstruct (missingSeq : UInt32) (frameSamples : ℕ) (offsetSamples : ℤ) (state : DredState)
  | playout (seq : UInt32) (concealed : Bool)
  deriving DecidableEq, Repr

structure DredRecvState where
  scratch : DredState
  lastGood : DredState
  lastGoodSeq : Option UInt32
  expectedSeq : Option UInt32

/-- The receive task, with all it has done, the latest first. -/
structure AudioReceiver (σ : Type) where
  decoder : σ
  dred : DredRecvState
  currentProfile : QualityProfile
  currentCodec : CodecId
  history : List AudioAction

namespace DredRecvState

def new : DredRecvState := ⟨⟨0, none⟩, ⟨0, none⟩, none, none⟩

variable {σ : Type} (codec : AudioDecoder σ)

def parseInto (state : DredState) (packet : Buf) : DredState × Option ℤ :=
  if packet.isEmpty then ({ state with samplesAvailable := 0 }, some 0)
  else if codec.dredParse packet < 0 then (⟨0, some packet⟩, none)
  else (⟨codec.dredParse packet, some packet⟩, some (codec.dredParse packet))

/-- A packet with redundancy becomes the anchor. -/
def ingestOpus (d : DredRecvState) (seq : UInt32) (payload : Buf) : DredRecvState :=
  match parseInto codec d.scratch payload with
  | (parsed, some available) =>
      if 0 < available then
        { d with scratch := d.lastGood, lastGood := parsed, lastGoodSeq := some seq }
      else { d with scratch := parsed }
  | (parsed, none) => { d with scratch := parsed }

def offsetSamples (d : DredRecvState) (missingSeq : UInt32) (frameSamples : ℕ) : ℤ :=
  match d.lastGoodSeq with
  | some anchor =>
      let delta := anchor - missingSeq
      if delta = 0 ∨ maxGapFrames < delta then -1 else delta.toNat * frameSamples
  | none => -1

def resetOnProfileSwitch (d : DredRecvState) : DredRecvState :=
  { d with lastGoodSeq := none, expectedSeq := none }

end DredRecvState

namespace AudioReceiver
variable {σ : Type} (codec : AudioDecoder σ) (spkMuted : Bool)

def new (decoder : σ) (initialProfile : QualityProfile) : AudioReceiver σ :=
  ⟨decoder, DredRecvState.new, initialProfile, initialProfile.codec, []⟩

def frameSamples (r : AudioReceiver σ) : ℕ := 48000 * r.currentProfile.frameDurationMs.toNat / 1000

/-- A frame for the speaker. -/
def emit (r : AudioReceiver σ) (seq : UInt32) (concealed : Bool) : AudioReceiver σ :=
  if spkMuted then r else { r with history := .playout seq concealed :: r.history }

/-- From the redundancy where it reaches back far enough. -/
def reconstruct (r : AudioReceiver σ) (missingSeq : UInt32) : AudioReceiver σ × Bool :=
  let offset := r.dred.offsetSamples missingSeq r.frameSamples
  if 0 < offset ∧ offset ≤ r.dred.lastGood.samplesAvailable then
    let (decoder, done) := codec.reconstructFromDred r.decoder r.dred.lastGood offset
    ({ r with
        decoder,
        history := .reconstruct missingSeq r.frameSamples offset r.dred.lastGood :: r.history },
      done)
  else (r, false)

def conceal (r : AudioReceiver σ) (missingSeq : UInt32) : AudioReceiver σ :=
  match r.reconstruct codec missingSeq with
  | (r, true) => r.emit spkMuted missingSeq true
  | (r, false) =>
      let (decoder, done) := codec.decodeLost r.decoder
      let r := { r with decoder }
      if done then r.emit spkMuted missingSeq true else r

/-- The numbers from the expected one to the one that arrived, if they are at most 16. -/
def missing (expectedSeq : Option UInt32) (currentSeq : UInt32) : List UInt32 :=
  match expectedSeq with
  | some expected =>
      let gap := currentSeq - expected
      if 0 < gap ∧ gap ≤ maxGapFrames then
        (List.range gap.toNat).map fun i => expected + UInt32.ofNat i
      else []
  | none => []

def fillGapTo (r : AudioReceiver σ) (currentSeq : UInt32) : AudioReceiver σ :=
  let r := (missing r.dred.expectedSeq currentSeq).foldl (conceal codec spkMuted) r
  { r with dred := { r.dred with expectedSeq := some (currentSeq + 1) } }

def switchCodec (r : AudioReceiver σ) (codecId : CodecId) : AudioReceiver σ :=
  if codecId = r.currentCodec then r
  else
    { r with
      decoder := codec.setProfile r.decoder (codecToProfile codecId)
      currentProfile := codecToProfile codecId
      currentCodec := codecId
      dred := r.dred.resetOnProfileSwitch }

def ingest (r : AudioReceiver σ) (pkt : MediaPacket) : AudioReceiver σ :=
  { r with dred := r.dred.ingestOpus codec pkt.header.seq pkt.payload }

def play (r : AudioReceiver σ) (pkt : MediaPacket) : AudioReceiver σ :=
  let (decoder, done) := codec.decode r.decoder pkt.payload
  let r := { r with decoder }
  if done then r.emit spkMuted pkt.header.seq false else r

/-- One audio packet in the receive task. -/
def recvMedia (r : AudioReceiver σ) (pkt : MediaPacket) : AudioReceiver σ :=
  let r := { r with history := .arrive pkt.header.seq :: r.history }
  if pkt.header.isRepair = false ∧ pkt.header.codecId ≠ .comfortNoise then
    let r := r.switchCodec codec pkt.header.codecId
    let r :=
      if pkt.header.codecId.isOpus then
        (r.ingest codec pkt).fillGapTo codec spkMuted pkt.header.seq
      else r
    r.play codec spkMuted pkt
  else r

end AudioReceiver

/-! ## A stream of Opus packets -/

/-- The source packets of one sender by their numbers, of one codec. -/
structure OpusStream where
  codecId : CodecId
  isOpus : codecId.isOpus = true
  packet : UInt32 → MediaPacket
  source : ∀ n, (packet n).header.isRepair = false ∧ (packet n).header.codecId = codecId ∧
    (packet n).header.seq = n

structure AudioArrival where
  seq : UInt32
  spkMuted : Bool

/-- The receive task over packets of the stream, as they arrive. -/
def OpusStream.recv {σ : Type} (stream : OpusStream) (codec : AudioDecoder σ) (r : AudioReceiver σ)
    (arrivals : List AudioArrival) : AudioReceiver σ :=
  arrivals.foldl (fun r a => r.recvMedia codec a.spkMuted (stream.packet a.seq)) r

/-- Each number is played once at most, concealed only if its packet had not come, and
reconstructed at the distance to a later packet, from what was parsed of it. -/
def OpusStream.Faithful (stream : OpusStream) : List AudioAction → Prop
  | [] => True
  | .arrive _ :: before => stream.Faithful before
  | .playout seq concealed :: before =>
      (∀ c, .playout seq c ∉ before) ∧ (concealed = true → .arrive seq ∉ before) ∧
        stream.Faithful before
  | .reconstruct missingSeq frameSamples offset state :: before =>
      (∃ anchor, .arrive anchor ∈ before ∧ state.parsedFrom = some (stream.packet anchor).payload ∧
        0 < anchor - missingSeq ∧ anchor - missingSeq ≤ maxGapFrames ∧
        offset = (anchor - missingSeq).toNat * frameSamples) ∧
        stream.Faithful before

/-- The numbers strictly between two, if these are 2 to 17 apart. -/
def between (previous seq : UInt32) : List UInt32 :=
  if 2 ≤ seq - previous ∧ seq - previous ≤ 17 then
    (List.range ((seq - previous).toNat - 1)).map fun i => previous + 1 + UInt32.ofNat i
  else []

/-- The numbers that arrive, each behind those between it and the one that arrived before it. -/
def covered : Option UInt32 → List UInt32 → List UInt32
  | _, [] => []
  | previous, seq :: rest => previous.elim [] (between · seq) ++ seq :: covered (some seq) rest

/-! ## The numbers that are played -/

/-- The numbers of each packet, those that are missing before it and its own. -/
def handled : Option UInt32 → List UInt32 → List UInt32
  | _, [] => []
  | expectedSeq, seq :: rest =>
      AudioReceiver.missing expectedSeq seq ++ seq :: handled (some (seq + 1)) rest

theorem missing_eq_between (previous seq : UInt32) :
    AudioReceiver.missing (some (previous + 1)) seq = between previous seq := by
  have hgap : (seq - (previous + 1)).toNat = (2 ^ 32 - 1 + (seq - previous).toNat) % 2 ^ 32 := by
    have hsucc : seq - (previous + 1) = seq - previous - 1 := by
      simp only [UInt32.sub_eq_add_neg, UInt32.neg_add, UInt32.add_assoc]
    rw [hsucc, UInt32.toNat_sub]
    rfl
  have hlt := (seq - previous).toNat_lt
  have hiff : (0 < seq - (previous + 1) ∧ seq - (previous + 1) ≤ maxGapFrames) ↔
      2 ≤ seq - previous ∧ seq - previous ≤ 17 := by
    rw [UInt32.lt_iff_toNat_lt, UInt32.le_iff_toNat_le, UInt32.le_iff_toNat_le,
      UInt32.le_iff_toNat_le, hgap]
    change (0 < _ ∧ _ ≤ 16) ↔ (2 ≤ _ ∧ _ ≤ 17)
    omega
  rw [AudioReceiver.missing, between, if_congr hiff rfl rfl]
  split
  · next h =>
      have hfar := UInt32.le_iff_toNat_le.mp h.1
      change 2 ≤ _ at hfar
      rw [show (seq - (previous + 1)).toNat = (seq - previous).toNat - 1 by omega]
  · rfl

theorem handled_eq_covered (previous : Option UInt32) (numbers : List UInt32) :
    handled (previous.map (· + 1)) numbers = covered previous numbers := by
  induction numbers generalizing previous with
  | nil => rfl
  | cons seq rest ih =>
      rw [handled, covered, ← ih]
      cases previous with
      | none => rfl
      | some p => exact congrArg (· ++ _) (missing_eq_between p seq)

/-! ## What concealment adds -/

/-- The number has neither come nor been played. -/
def Fresh (history : List AudioAction) (n : UInt32) : Prop :=
  .arrive n ∉ history ∧ ∀ c, .playout n c ∉ history

/-- The cached redundancy is that of the anchor, which has arrived. -/
def OpusStream.Anchored (stream : OpusStream) (d : DredRecvState) (history : List AudioAction) : Prop :=
  ∀ anchor, d.lastGoodSeq = some anchor →
    .arrive anchor ∈ history ∧ d.lastGood.parsedFrom = some (stream.packet anchor).payload

/-- At most the numbers of the list are played. -/
structure OpusStream.Adds (stream : OpusStream) {σ : Type} (numbers : List UInt32)
    (r r' : AudioReceiver σ) : Prop where
  dred : r'.dred = r.dred
  codec : r'.currentCodec = r.currentCodec
  faithful : stream.Faithful r'.history
  arrive : ∀ n, .arrive n ∈ r'.history ↔ .arrive n ∈ r.history
  playout : ∀ n c, .playout n c ∈ r'.history → .playout n c ∈ r.history ∨ n ∈ numbers

namespace OpusStream
variable {stream : OpusStream} {σ : Type} (codec : AudioDecoder σ) (spkMuted : Bool)
  {r r' : AudioReceiver σ} {n : UInt32}

theorem Adds.fresh {numbers : List UInt32} (h : stream.Adds numbers r r') (hn : Fresh r.history n)
    (hout : n ∉ numbers) : Fresh r'.history n := by
  refine ⟨fun harrive => hn.1 ((h.arrive n).mp harrive), fun c hplayed => ?_⟩
  rcases h.playout n c hplayed with hold | hnew
  · exact hn.2 c hold
  · exact hout hnew

theorem adds_emit (hfaithful : stream.Faithful r.history) {concealed : Bool}
    (hplayed : ∀ c, .playout n c ∉ r.history)
    (harrived : concealed = true → .arrive n ∉ r.history) :
    stream.Adds [n] r (r.emit spkMuted n concealed) := by
  unfold AudioReceiver.emit
  split
  · exact ⟨rfl, rfl, hfaithful, fun _ => Iff.rfl, fun _ _ => Or.inl⟩
  · refine ⟨rfl, rfl, ⟨hplayed, harrived, hfaithful⟩, fun k => ?_, fun k c hmem => ?_⟩
    · simp only [List.mem_cons, reduceCtorEq, false_or]
    · rcases List.mem_cons.mp hmem with heq | hold
      · injection heq with hk
        exact Or.inr (List.mem_singleton.mpr hk)
      · exact Or.inl hold

theorem adds_decoder (hfaithful : stream.Faithful r.history) (decoder : σ) :
    stream.Adds [] r { r with decoder } :=
  ⟨rfl, rfl, hfaithful, fun _ => Iff.rfl, fun _ _ => Or.inl⟩

theorem Adds.trans_nil {r'' : AudioReceiver σ} {numbers : List UInt32} (h : stream.Adds [] r r')
    (h' : stream.Adds numbers r' r'') : stream.Adds numbers r r'' := by
  refine ⟨h'.dred.trans h.dred, h'.codec.trans h.codec, h'.faithful, fun k =>
    (h'.arrive k).trans (h.arrive k), fun k c hmem => ?_⟩
  rcases h'.playout k c hmem with hold | hnew
  · rcases h.playout k c hold with hold | hnew
    · exact Or.inl hold
    · exact absurd hnew List.not_mem_nil
  · exact Or.inr hnew

/-- A reconstruction is asked for at the distance to the anchor. -/
theorem offsetSamples_spec {d : DredRecvState} {missingSeq : UInt32} {frameSamples : ℕ}
    (hpos : 0 < d.offsetSamples missingSeq frameSamples) :
    ∃ anchor, d.lastGoodSeq = some anchor ∧ 0 < anchor - missingSeq ∧
      anchor - missingSeq ≤ maxGapFrames ∧
      d.offsetSamples missingSeq frameSamples = (anchor - missingSeq).toNat * frameSamples := by
  unfold DredRecvState.offsetSamples at *
  cases hanchor : d.lastGoodSeq with
  | none =>
      rw [hanchor] at hpos
      exact absurd (show (0 : ℤ) < -1 from hpos) (by decide)
  | some anchor =>
      rw [hanchor] at hpos
      dsimp only at hpos ⊢
      split at hpos
      · exact absurd hpos (by decide)
      · rename_i hnear
        obtain ⟨hne, hle⟩ := not_or.mp hnear
        refine ⟨anchor, rfl, UInt32.pos_iff_ne_zero.mpr hne, UInt32.not_lt.mp hle, ?_⟩
        rw [if_neg hnear]

theorem adds_reconstruct (hfaithful : stream.Faithful r.history)
    (hanchored : stream.Anchored r.dred r.history) (n : UInt32) :
    stream.Adds [] r (r.reconstruct codec n).1 := by
  unfold AudioReceiver.reconstruct
  dsimp only
  split
  · rename_i hreach
    obtain ⟨anchor, hanchor, hlater, hnear, hoffset⟩ := offsetSamples_spec hreach.1
    obtain ⟨harrive, hparsed⟩ := hanchored anchor hanchor
    refine ⟨rfl, rfl, ⟨⟨anchor, harrive, hparsed, hlater, hnear, hoffset⟩, hfaithful⟩,
      fun k => ?_, fun k c hmem => ?_⟩
    · simp only [List.mem_cons, reduceCtorEq, false_or]
    · rcases List.mem_cons.mp hmem with heq | hold
      · cases heq
      · exact Or.inl hold
  · exact ⟨rfl, rfl, hfaithful, fun _ => Iff.rfl, fun _ _ => Or.inl⟩

theorem adds_conceal (hfaithful : stream.Faithful r.history)
    (hanchored : stream.Anchored r.dred r.history) (hfresh : Fresh r.history n) :
    stream.Adds [n] r (r.conceal codec spkMuted n) := by
  have hreconstruct := adds_reconstruct codec hfaithful hanchored n
  have hstill := hreconstruct.fresh hfresh List.not_mem_nil
  unfold AudioReceiver.conceal
  generalize r.reconstruct codec n = result at hreconstruct hstill
  obtain ⟨r', done⟩ := result
  apply hreconstruct.trans_nil
  cases done with
  | true => exact adds_emit spkMuted hreconstruct.faithful hstill.2 fun _ => hstill.1
  | false =>
      have hdecoder := adds_decoder hreconstruct.faithful (codec.decodeLost r'.decoder).1
      have hstill := hdecoder.fresh hstill List.not_mem_nil
      dsimp only
      apply hdecoder.trans_nil
      split
      · exact adds_emit spkMuted hdecoder.faithful hstill.2 fun _ => hstill.1
      · exact ⟨rfl, rfl, hdecoder.faithful, fun _ => Iff.rfl, fun _ _ => Or.inl⟩

/-- By induction over the missing numbers. -/
theorem adds_concealAll (numbers : List UInt32) (hnodup : numbers.Nodup)
    (hfaithful : stream.Faithful r.history) (hanchored : stream.Anchored r.dred r.history)
    (hfresh : ∀ n ∈ numbers, Fresh r.history n) :
    stream.Adds numbers r (numbers.foldl (AudioReceiver.conceal codec spkMuted) r) := by
  induction numbers generalizing r with
  | nil => exact ⟨rfl, rfl, hfaithful, fun _ => Iff.rfl, fun _ _ => Or.inl⟩
  | cons n rest ih =>
      obtain ⟨hn, hrest⟩ := List.nodup_cons.mp hnodup
      have hfirst := adds_conceal codec spkMuted hfaithful hanchored
        (hfresh n List.mem_cons_self)
      have hanchored' : stream.Anchored (r.conceal codec spkMuted n).dred
          (r.conceal codec spkMuted n).history := by
        intro anchor hanchor
        rw [hfirst.dred] at hanchor ⊢
        obtain ⟨harrive, hparsed⟩ := hanchored anchor hanchor
        exact ⟨(hfirst.arrive anchor).mpr harrive, hparsed⟩
      have hlater := ih hrest hfirst.faithful hanchored' fun k hk =>
        hfirst.fresh (hfresh k (List.mem_cons_of_mem _ hk)) fun hkn =>
          hn (List.mem_singleton.mp hkn ▸ hk)
      refine ⟨hlater.dred.trans hfirst.dred, hlater.codec.trans hfirst.codec, hlater.faithful,
        fun k => (hlater.arrive k).trans (hfirst.arrive k), fun k c hmem => ?_⟩
      rcases hlater.playout k c hmem with hold | hnew
      · rcases hfirst.playout k c hold with hold | hnew
        · exact Or.inl hold
        · exact Or.inr (List.mem_singleton.mp hnew ▸ List.mem_cons_self)
      · exact Or.inr (List.mem_cons_of_mem _ hnew)

/-! ## One packet -/

/-- What is known behind packets with the numbers `taken`. -/
structure Kept (stream : OpusStream) (taken : List UInt32) (expectedSeq : Option UInt32)
    (r : AudioReceiver σ) : Prop where
  expected : r.dred.expectedSeq = expectedSeq
  codec : expectedSeq ≠ none → r.currentCodec = stream.codecId
  taken : ∀ n, n ∉ taken → Fresh r.history n
  anchored : stream.Anchored r.dred r.history
  faithful : stream.Faithful r.history

theorem ingestOpus_spec (d : DredRecvState) (n : UInt32) (payload : Buf) :
    (d.ingestOpus codec n payload).expectedSeq = d.expectedSeq ∧
      ((d.ingestOpus codec n payload).lastGoodSeq = d.lastGoodSeq ∧
          (d.ingestOpus codec n payload).lastGood = d.lastGood ∨
        (d.ingestOpus codec n payload).lastGoodSeq = some n ∧
          (d.ingestOpus codec n payload).lastGood.parsedFrom = some payload) := by
  unfold DredRecvState.ingestOpus DredRecvState.parseInto
  by_cases hempty : payload.isEmpty = true
  · rw [if_pos hempty]
    exact ⟨rfl, Or.inl ⟨rfl, rfl⟩⟩
  · rw [if_neg hempty]
    by_cases hfailed : codec.dredParse payload < 0
    · rw [if_pos hfailed]
      exact ⟨rfl, Or.inl ⟨rfl, rfl⟩⟩
    · rw [if_neg hfailed]
      dsimp only
      split
      · exact ⟨rfl, Or.inr ⟨rfl, rfl⟩⟩
      · exact ⟨rfl, Or.inl ⟨rfl, rfl⟩⟩

/-- The codec is switched at the first packet only. -/
theorem Kept.switched {taken : List UInt32} {expectedSeq : Option UInt32}
    (h : stream.Kept taken expectedSeq r) :
    (r.switchCodec codec stream.codecId).dred.expectedSeq = expectedSeq ∧
      (r.switchCodec codec stream.codecId).currentCodec = stream.codecId ∧
      (r.switchCodec codec stream.codecId).history = r.history ∧
      stream.Anchored (r.switchCodec codec stream.codecId).dred r.history := by
  unfold AudioReceiver.switchCodec
  split
  · rename_i hsame
    exact ⟨h.expected, hsame.symm, rfl, h.anchored⟩
  · rename_i hother
    cases expectedSeq with
    | none => exact ⟨rfl, rfl, rfl, fun anchor hanchor => by cases hanchor⟩
    | some expected => exact absurd (h.codec (Option.some_ne_none _)).symm hother

theorem Kept.arrived {taken : List UInt32} {expectedSeq : Option UInt32}
    (h : stream.Kept taken expectedSeq r) (n : UInt32) :
    stream.Kept (taken ++ [n]) expectedSeq { r with history := .arrive n :: r.history } := by
  refine ⟨h.expected, h.codec, fun k hk => ?_, fun anchor hanchor => ?_, h.faithful⟩
  · rw [List.mem_append, not_or] at hk
    obtain ⟨hold, hne⟩ := hk
    have hfresh := h.taken k hold
    refine ⟨fun hmem => ?_, fun c hmem => ?_⟩
    · rcases List.mem_cons.mp hmem with heq | hmem
      · injection heq with heq
        exact hne (List.mem_singleton.mpr heq)
      · exact hfresh.1 hmem
    · rcases List.mem_cons.mp hmem with heq | hmem
      · cases heq
      · exact hfresh.2 c hmem
  · obtain ⟨harrive, hparsed⟩ := h.anchored anchor hanchor
    exact ⟨List.mem_cons_of_mem _ harrive, hparsed⟩

theorem Anchored.ingested {n : UInt32} (h : stream.Anchored r.dred r.history)
    (harrived : .arrive n ∈ r.history) :
    stream.Anchored (r.dred.ingestOpus codec n (stream.packet n).payload) r.history := by
  obtain ⟨-, ⟨hseq, hgood⟩ | ⟨hseq, hparsed⟩⟩ :=
    ingestOpus_spec codec r.dred n (stream.packet n).payload
  · intro anchor hanchor
    rw [hseq] at hanchor
    rw [hgood]
    exact h anchor hanchor
  · intro anchor hanchor
    rw [hseq] at hanchor
    obtain rfl := Option.some.inj hanchor
    exact ⟨harrived, hparsed⟩

/-- The packet itself, behind those concealed before it. -/
theorem adds_play (pkt : MediaPacket) (hfaithful : stream.Faithful r.history)
    (hplayed : ∀ c, .playout pkt.header.seq c ∉ r.history) :
    stream.Adds [pkt.header.seq] r (r.play codec spkMuted pkt) := by
  have hdecoder := adds_decoder hfaithful (codec.decode r.decoder pkt.payload).1
  unfold AudioReceiver.play
  dsimp only
  apply hdecoder.trans_nil
  split
  · exact adds_emit spkMuted hdecoder.faithful hplayed fun hfalse => by cases hfalse
  · exact ⟨rfl, rfl, hdecoder.faithful, fun _ => Iff.rfl, fun _ _ => Or.inl⟩

theorem recvMedia_packet (r : AudioReceiver σ) (n : UInt32) :
    r.recvMedia codec spkMuted (stream.packet n) =
      (((({ r with history := .arrive n :: r.history } : AudioReceiver σ).switchCodec codec
        stream.codecId).ingest codec (stream.packet n)).fillGapTo codec spkMuted n).play codec spkMuted
          (stream.packet n) := by
  obtain ⟨hsource, hcodec, hseq⟩ := stream.source n
  have hopus := stream.isOpus
  have hnoise : stream.codecId ≠ .comfortNoise := by
    intro heq
    rw [heq] at hopus
    cases hopus
  unfold AudioReceiver.recvMedia
  dsimp only
  rw [hcodec, hseq, if_pos ⟨hsource, hnoise⟩, if_pos hopus]

theorem kept_step {taken : List UInt32} {expectedSeq : Option UInt32}
    (h : stream.Kept taken expectedSeq r) (n : UInt32)
    (hnodup : (AudioReceiver.missing expectedSeq n ++ [n]).Nodup)
    (hfresh : ∀ k ∈ AudioReceiver.missing expectedSeq n ++ [n], k ∉ taken) :
    stream.Kept (taken ++ (AudioReceiver.missing expectedSeq n ++ [n])) (some (n + 1))
      (r.recvMedia codec spkMuted (stream.packet n)) := by
  have hseq := (stream.source n).2.2
  obtain ⟨hmissing, -, hdisjoint⟩ := List.nodup_append.mp hnodup
  have hne : ∀ k ∈ AudioReceiver.missing expectedSeq n, k ≠ n := fun k hk =>
    hdisjoint k hk n (List.mem_singleton.mpr rfl)
  have harrived := h.arrived n
  obtain ⟨hexpected, hcodec, hhistory, hanchored⟩ := harrived.switched codec
  rw [recvMedia_packet]
  generalize ({ r with history := .arrive n :: r.history } : AudioReceiver σ).switchCodec codec
    stream.codecId = switched at *
  -- behind the look for redundancy in the packet
  have hingested : stream.Anchored (switched.ingest codec (stream.packet n)).dred
      (switched.ingest codec (stream.packet n)).history := by
    rw [← hhistory] at hanchored
    unfold AudioReceiver.ingest
    rw [hseq]
    exact hanchored.ingested codec (hhistory ▸ List.mem_cons_self)
  have hkept : (switched.ingest codec (stream.packet n)).history = .arrive n :: r.history := hhistory
  have hstill : (switched.ingest codec (stream.packet n)).dred.expectedSeq = expectedSeq :=
    (ingestOpus_spec codec switched.dred _ _).1.trans hexpected
  have hcodec' : (switched.ingest codec (stream.packet n)).currentCodec = stream.codecId := hcodec
  generalize switched.ingest codec (stream.packet n) = ingested at *
  -- the numbers that are missing are concealed
  have hfilled := adds_concealAll codec spkMuted (r := ingested)
    (AudioReceiver.missing expectedSeq n) hmissing (hkept ▸ harrived.faithful) hingested (by
      intro k hk
      rw [hkept]
      refine harrived.taken k (mt List.mem_append.mp (not_or.mpr ⟨?_, fun hkn => ?_⟩))
      · exact hfresh k (List.mem_append_left _ hk)
      · exact hne k hk (List.mem_singleton.mp hkn))
  unfold AudioReceiver.fillGapTo
  rw [hstill]
  generalize (AudioReceiver.missing expectedSeq n).foldl (AudioReceiver.conceal codec spkMuted)
    ingested = filled at *
  -- the packet is played
  have hplay := adds_play codec spkMuted
    (r := { filled with dred := { filled.dred with expectedSeq := some (n + 1) } })
    (stream.packet n) hfilled.faithful (by
      intro c hmem
      rw [hseq] at hmem
      rcases hfilled.playout n c hmem with hold | hnew
      · rw [hkept] at hold
        rcases List.mem_cons.mp hold with heq | hold
        · cases heq
        · exact (h.taken n (hfresh n (List.mem_append_right _ (List.mem_singleton.mpr rfl)))).2 c hold
      · exact hne n hnew rfl)
  rw [hseq] at hplay
  have harrive : ∀ k, .arrive k ∈ (AudioReceiver.play codec spkMuted
      { filled with dred := { filled.dred with expectedSeq := some (n + 1) } }
      (stream.packet n)).history ↔ .arrive k ∈ AudioAction.arrive n :: r.history := fun k =>
    (hplay.arrive k).trans ((hfilled.arrive k).trans (by rw [hkept]))
  refine ⟨by rw [hplay.dred], fun _ => ?_, fun k hk => ⟨fun hmem => ?_, fun c hmem => ?_⟩, ?_,
    hplay.faithful⟩
  · rw [hplay.codec]
    exact hfilled.codec.trans hcodec'
  · rw [List.mem_append, List.mem_append, not_or, not_or] at hk
    have hfresh' := harrived.taken k (mt List.mem_append.mp (not_or.mpr ⟨hk.1, hk.2.2⟩))
    exact hfresh'.1 ((harrive k).mp hmem)
  · rw [List.mem_append, List.mem_append, not_or, not_or] at hk
    have hfresh' := harrived.taken k (mt List.mem_append.mp (not_or.mpr ⟨hk.1, hk.2.2⟩))
    rcases hplay.playout k c hmem with hold | hnew
    · rcases hfilled.playout k c hold with hold | hnew
      · exact hfresh'.2 c (hkept ▸ hold)
      · exact hk.2.1 hnew
    · exact hk.2.2 hnew
  · intro anchor hanchor
    rw [hplay.dred] at hanchor ⊢
    rw [hfilled.dred] at hanchor ⊢
    obtain ⟨hold, hparsed⟩ := hingested anchor hanchor
    exact ⟨(harrive anchor).mpr (hkept ▸ hold), hparsed⟩

theorem kept_recv {taken : List UInt32} {expectedSeq : Option UInt32} (arrivals : List AudioArrival)
    (h : stream.Kept taken expectedSeq r)
    (hnodup : (handled expectedSeq (arrivals.map (·.seq))).Nodup)
    (hfresh : ∀ k ∈ handled expectedSeq (arrivals.map (·.seq)), k ∉ taken) :
    stream.Faithful (stream.recv codec r arrivals).history := by
  induction arrivals generalizing r taken expectedSeq with
  | nil => exact h.faithful
  | cons a rest ih =>
      rw [List.map_cons, handled, List.append_cons] at hnodup hfresh
      obtain ⟨hhead, hrest, hdisjoint⟩ := List.nodup_append.mp hnodup
      have hstep := kept_step codec a.spkMuted h a.seq hhead fun k hk =>
        hfresh k (List.mem_append_left _ hk)
      apply ih hstep hrest
      intro k hk hmem
      rcases List.mem_append.mp hmem with hold | hnew
      · exact hfresh k (List.mem_append_right _ hk) hold
      · exact hdisjoint k hnew k hk rfl

/-! ## A decoder that never fails -/

def played : List AudioAction → List UInt32
  | [] => []
  | .playout n _ :: before => n :: played before
  | _ :: before => played before

theorem Faithful.played_nodup {history : List AudioAction} (h : stream.Faithful history) :
    (played history).Nodup := by
  have hmem : ∀ (history : List AudioAction) (n : UInt32), n ∈ played history →
      ∃ c, .playout n c ∈ history := by
    intro history n hn
    induction history with
    | nil => cases hn
    | cons action before ih =>
        cases action with
        | playout k c =>
            rcases List.mem_cons.mp hn with rfl | hn
            · exact ⟨c, List.mem_cons_self⟩
            · exact (ih hn).imp fun _ => List.mem_cons_of_mem _
        | arrive => exact (ih hn).imp fun _ => List.mem_cons_of_mem _
        | reconstruct => exact (ih hn).imp fun _ => List.mem_cons_of_mem _
  induction history with
  | nil => exact List.nodup_nil
  | cons action before ih =>
      cases action with
      | playout n c =>
          refine List.nodup_cons.mpr ⟨fun hn => ?_, ih h.2.2⟩
          obtain ⟨c', hc'⟩ := hmem before n hn
          exact h.1 c' hc'
      | arrive => exact ih h
      | reconstruct => exact ih h.2

/-- Packets without redundancy, each of which decodes, and every loss can be concealed. -/
def plainDecoder : AudioDecoder Unit where
  dredParse _ := 0
  setProfile _ _ := ()
  reconstructFromDred _ _ _ := ((), false)
  decodeLost _ := ((), true)
  decode _ _ := ((), true)

section
variable (r : AudioReceiver Unit)

theorem conceal_plain (n : UInt32) :
    (r.conceal plainDecoder false n).dred = r.dred ∧
      (r.conceal plainDecoder false n).currentCodec = r.currentCodec ∧
      played (r.conceal plainDecoder false n).history = n :: played r.history := by
  unfold AudioReceiver.conceal AudioReceiver.reconstruct
  by_cases hreach : 0 < r.dred.offsetSamples n r.frameSamples ∧
      r.dred.offsetSamples n r.frameSamples ≤ r.dred.lastGood.samplesAvailable
  · rw [if_pos hreach]
    exact ⟨rfl, rfl, rfl⟩
  · rw [if_neg hreach]
    exact ⟨rfl, rfl, rfl⟩

theorem concealAll_plain (numbers : List UInt32) :
    (numbers.foldl (AudioReceiver.conceal plainDecoder false) r).dred = r.dred ∧
      (numbers.foldl (AudioReceiver.conceal plainDecoder false) r).currentCodec = r.currentCodec ∧
      played (numbers.foldl (AudioReceiver.conceal plainDecoder false) r).history =
        numbers.reverse ++ played r.history := by
  induction numbers generalizing r with
  | nil => exact ⟨rfl, rfl, rfl⟩
  | cons n rest ih =>
      obtain ⟨hdred, hcodec, hplayed⟩ := conceal_plain r n
      obtain ⟨hdred', hcodec', hplayed'⟩ := ih (r.conceal plainDecoder false n)
      refine ⟨hdred'.trans hdred, hcodec'.trans hcodec, ?_⟩
      rw [List.foldl_cons, hplayed', hplayed, List.reverse_cons, List.append_assoc]
      rfl

theorem recvMedia_plain (hcodec : r.currentCodec = stream.codecId) (n : UInt32) :
    (r.recvMedia plainDecoder false (stream.packet n)).dred.expectedSeq = some (n + 1) ∧
      (r.recvMedia plainDecoder false (stream.packet n)).currentCodec = stream.codecId ∧
      played (r.recvMedia plainDecoder false (stream.packet n)).history =
        n :: (AudioReceiver.missing r.dred.expectedSeq n).reverse ++ played r.history := by
  have hseq := (stream.source n).2.2
  have hswitch : ({ r with history := .arrive n :: r.history } : AudioReceiver Unit).switchCodec
      plainDecoder stream.codecId = { r with history := .arrive n :: r.history } := by
    rw [AudioReceiver.switchCodec, if_pos hcodec.symm]
  rw [recvMedia_packet, hswitch]
  unfold AudioReceiver.ingest AudioReceiver.fillGapTo
  rw [hseq]
  have hexpected := (ingestOpus_spec plainDecoder r.dred n (stream.packet n).payload).1
  dsimp only
  rw [hexpected]
  obtain ⟨-, hcodec', hplayed⟩ := concealAll_plain
    { r with
      dred := r.dred.ingestOpus plainDecoder n (stream.packet n).payload
      history := .arrive n :: r.history }
    (AudioReceiver.missing r.dred.expectedSeq n)
  refine ⟨rfl, hcodec'.trans hcodec, ?_⟩
  change (stream.packet n).header.seq :: played _ = _
  rw [hseq]
  dsimp only
  rw [hplayed]
  rfl

theorem recv_plain (hcodec : r.currentCodec = stream.codecId) (numbers : List UInt32) :
    played (stream.recv plainDecoder r (numbers.map fun n => ⟨n, false⟩)).history =
      (handled r.dred.expectedSeq numbers).reverse ++ played r.history := by
  induction numbers generalizing r with
  | nil => rfl
  | cons n rest ih =>
      obtain ⟨hexpected, hcodec', hplayed⟩ := recvMedia_plain r hcodec n
      have hrest := ih _ hcodec'
      rw [hexpected, hplayed] at hrest
      rw [handled, List.append_cons, List.reverse_append, List.reverse_append, List.append_assoc]
      exact hrest

end

/-- Whatever the decoder does, each number is played once: exactly if the numbers that
arrive and those between two of them that are 2 to 17 apart are all different. -/
theorem played_once_iff (stream : OpusStream) (numbers : List UInt32) :
    (∀ (σ : Type) (codec : AudioDecoder σ) (decoder : σ) (profile : QualityProfile)
      (arrivals : List AudioArrival), arrivals.map (·.seq) = numbers →
        stream.Faithful (stream.recv codec (AudioReceiver.new decoder profile) arrivals).history) ↔
      (covered none numbers).Nodup := by
  rw [← handled_eq_covered]
  constructor
  · intro h
    have hplain := h Unit plainDecoder () { QualityProfile.good with codec := stream.codecId }
      (numbers.map fun n => ⟨n, false⟩) (by rw [List.map_map]; exact List.map_id numbers)
    have hnodup := hplain.played_nodup
    rw [recv_plain _ rfl] at hnodup
    exact (List.reverse_perm _).nodup_iff.mp (List.nodup_append.mp hnodup).1
  · rintro hnodup σ codec decoder profile arrivals rfl
    have hstart : stream.Kept [] none (AudioReceiver.new decoder profile) :=
      { expected := rfl
        codec := fun h => absurd rfl h
        taken := fun n _ => ⟨List.not_mem_nil, fun _ => List.not_mem_nil⟩
        anchored := by
          intro anchor hanchor
          cases hanchor
        faithful := trivial }
    exact kept_recv codec arrivals hstart hnodup fun _ _ => List.not_mem_nil

def sampleOpus : OpusStream where
  codecId := .opus24k
  isOpus := rfl
  packet n := ⟨⟨MediaHeader.versionByte, 0, .audio, .opus24k, 0, 0, n, 0, 0⟩, [1], none⟩
  source _ := ⟨show ((0 : UInt8) &&& MediaHeader.flagRepair != 0) = false by decide, rfl, rfl⟩

/-- Packet 1 comes behind packet 2: its frame has been concealed, and is played again. -/
theorem late_packet_played_again :
    played (sampleOpus.recv plainDecoder (AudioReceiver.new () QualityProfile.good)
        ([0, 2, 1].map fun n => ⟨n, false⟩)).history = [1, 2, 1, 0] ∧
      ¬ sampleOpus.Faithful (sampleOpus.recv plainDecoder
        (AudioReceiver.new () QualityProfile.good) ([0, 2, 1].map fun n => ⟨n, false⟩)).history := by
  have hplayed : played (sampleOpus.recv plainDecoder (AudioReceiver.new () QualityProfile.good)
      ([0, 2, 1].map fun n => ⟨n, false⟩)).history = [1, 2, 1, 0] :=
    (recv_plain (AudioReceiver.new () QualityProfile.good) rfl [0, 2, 1]).trans (by decide)
  refine ⟨hplayed, fun hfaithful => ?_⟩
  have hnodup := hfaithful.played_nodup
  rw [hplayed] at hnodup
  exact absurd hnodup (by decide)

end OpusStream
end Wzp.Desktop
