import Wzp.Client.SecureTransport
import Wzp.Lib.Threads
import Wzp.Video.Reassembly

/-!
# The protocol analyzer

The analyzer joins a room and sends nothing. The packets of a room do not say who sent them:
the analyzer tells the senders apart by their sequence numbers alone.
-/
namespace Wzp.Client.Analyzer
open Bytes Proto Video Threads

/-! ## The participants -/

structure ParticipantStats where
  streamId : ℕ
  codec : CodecId
  packets : ℕ
  lost : ℕ
  lastSeq : UInt32
  seqInitialized : Bool
  codecSwitches : ℕ
  deriving DecidableEq

namespace ParticipantStats

def new (id : ℕ) (codec : CodecId) : ParticipantStats where
  streamId := id
  codec
  packets := 0
  lost := 0
  lastSeq := 0
  seqInitialized := false
  codecSwitches := 0

/-- The numbers between the last packet and this one, if they are not too many. -/
def gapLost (seqInitialized : Bool) (lastSeq seq : UInt32) : ℕ :=
  let gap := seq - (lastSeq + 1)
  if seqInitialized ∧ 0 < gap ∧ gap < 100 then gap.toNat else 0

def ingest (p : ParticipantStats) (pkt : MediaPacket) : ParticipantStats :=
  let switched := pkt.header.codecId ≠ p.codec
  { p with
    packets := p.packets + 1
    codecSwitches := if switched then p.codecSwitches + 1 else p.codecSwitches
    codec := if switched then pkt.header.codecId else p.codec
    lost := p.lost + gapLost p.seqInitialized p.lastSeq pkt.header.seq
    lastSeq := pkt.header.seq
    seqInitialized := true }

/-- The participant whose counter is close behind `seq`. -/
def near (p : ParticipantStats) (seq : UInt32) : Bool :=
  let delta := seq - p.lastSeq
  p.seqInitialized && (decide (0 < delta) && decide (delta < 50))

end ParticipantStats

/-- The place of the sender of a packet, with a new participant if there is none. -/
def findOrCreateParticipant (participants : List ParticipantStats) (seq : UInt32)
    (codec : CodecId) : List ParticipantStats × ℕ :=
  match participants.findIdx? (·.near seq) with
  | some i => (participants, i)
  | none =>
      let id := participants.length
      (participants ++ [ParticipantStats.new id codec], id)

/-- What a packet does to the participants. -/
def observe (participants : List ParticipantStats) (pkt : MediaPacket) : List ParticipantStats :=
  let (participants, idx) :=
    findOrCreateParticipant participants pkt.header.seq pkt.header.codecId
  participants.modify idx (·.ingest pkt)

def observeAll (packets : List MediaPacket) : List ParticipantStats := packets.foldl observe []

/-! ## The video streams -/

structure VideoStreamProbe where
  id : ℕ
  codec : CodecId
  wireStreamId : UInt8
  packets : ℕ
  lost : ℕ
  lastSeq : UInt32
  seqInitialized : Bool
  frames : ℕ
  keyframes : ℕ
  bytes : ℕ
  maxFrameBytes : ℕ
  reassembler : VideoReassembler

namespace VideoStreamProbe

def new (id : ℕ) (codec : CodecId) (wireStreamId : UInt8) : VideoStreamProbe where
  id
  codec
  wireStreamId
  packets := 0
  lost := 0
  lastSeq := 0
  seqInitialized := false
  frames := 0
  keyframes := 0
  bytes := 0
  maxFrameBytes := 0
  reassembler := VideoReassembler.new

/-- What a complete frame changes. -/
def count (s : VideoStreamProbe) (frame : ReassembledVideoFrame) : VideoStreamProbe :=
  { s with
    frames := s.frames + 1
    bytes := s.bytes + frame.data.length
    maxFrameBytes := max s.maxFrameBytes frame.data.length
    keyframes := if frame.isKeyframe then s.keyframes + 1 else s.keyframes
    codec := frame.codecId }

def ingest (s : VideoStreamProbe) (pkt : MediaPacket) : VideoStreamProbe :=
  -- Another codec loses the frames in progress.
  let reassembler :=
    if pkt.header.codecId ≠ s.codec then VideoReassembler.new else s.reassembler
  let (reassembler, frame) := reassembler.push pkt
  let s :=
    { s with
      packets := s.packets + 1
      codec := pkt.header.codecId
      lost := s.lost + ParticipantStats.gapLost s.seqInitialized s.lastSeq pkt.header.seq
      lastSeq := pkt.header.seq
      seqInitialized := true
      reassembler }
  match frame with
  | some frame => s.count frame
  | none => s

def near (s : VideoStreamProbe) (pkt : MediaPacket) : Bool :=
  let delta := pkt.header.seq - s.lastSeq
  s.seqInitialized && (decide (s.wireStreamId = pkt.header.streamId) &&
    (decide (s.codec = pkt.header.codecId) && (decide (0 < delta) && decide (delta < 80))))

end VideoStreamProbe

/-- The streams of a probe that decodes nothing. -/
abbrev VideoProbe := List VideoStreamProbe

namespace VideoProbe

def findOrCreateStream (streams : VideoProbe) (pkt : MediaPacket) : VideoProbe × ℕ :=
  match streams.findIdx? (·.near pkt) with
  | some i => (streams, i)
  | none =>
      let id := streams.length
      (streams ++ [VideoStreamProbe.new id pkt.header.codecId pkt.header.streamId], id)

def ingest (streams : VideoProbe) (pkt : MediaPacket) : VideoProbe :=
  if pkt.header.mediaType ≠ .video then streams
  else
    let (streams, idx) := findOrCreateStream streams pkt
    streams.modify idx (·.ingest pkt)

def ingestAll (packets : List MediaPacket) : VideoProbe := packets.foldl ingest []

end VideoProbe

/-! ## Telling senders apart -/

/-- `b` is fewer than `limit` numbers behind `a` in a stream that counts up. -/
def close (limit a b : UInt32) : Bool := decide (0 < b - a) && decide (b - a < limit)

def audioFollows (a b : MediaPacket) : Bool := close 50 a.header.seq b.header.seq

def videoFollows (a b : MediaPacket) : Bool :=
  decide (a.header.streamId = b.header.streamId) &&
    (decide (a.header.codecId = b.header.codecId) && close 80 a.header.seq b.header.seq)

/-- The step from one packet to the next. -/
def distance (a b : MediaPacket) : ℕ := (b.header.seq - a.header.seq).toNat

def switch (a b : MediaPacket) : ℕ := if b.header.codecId = a.header.codecId then 0 else 1

theorem gapLost_add {limit lastSeq seq : UInt32} (hlimit : limit ≤ 100)
    (h : close limit lastSeq seq = true) :
    ParticipantStats.gapLost true lastSeq seq + 1 = (seq - lastSeq).toNat := by
  rw [close, Bool.and_eq_true, decide_eq_true_eq, decide_eq_true_eq, UInt32.lt_iff_toNat_lt,
    UInt32.lt_iff_toNat_lt] at h
  obtain ⟨hpos, hlt⟩ := h
  have hle : limit.toNat ≤ 100 := UInt32.le_iff_toNat_le.mp hlimit
  have hgap : seq - (lastSeq + 1) = seq - lastSeq - 1 := by grind
  have hnat : (seq - lastSeq - 1).toNat = (seq - lastSeq).toNat - 1 :=
    UInt32.toNat_sub_of_le _ _ (UInt32.le_iff_toNat_le.mpr hpos)
  have h0 : (0 : UInt32).toNat = 0 := rfl
  have h100 : (100 : UInt32).toNat = 100 := rfl
  simp only [ParticipantStats.gapLost, hgap, UInt32.lt_iff_toNat_lt, hnat, h0, h100, true_and]
  rw [h0] at hpos
  split <;> omega

namespace ParticipantStats

/-- What a participant shows of its packets. Every number from its first packet to its last
one is counted, as received or as lost. -/
structure Counts (p : ParticipantStats) (own : List MediaPacket) : Prop where
  packets : p.packets = own.length
  lost : p.lost + p.packets = travelled distance own + 1
  codecSwitches : p.codecSwitches = travelled switch own
  last : ∃ last, own.getLast? = some last ∧ p.lastSeq = last.header.seq ∧
    p.codec = last.header.codecId
  seqInitialized : p.seqInitialized = true

variable {p : ParticipantStats} {own : List MediaPacket} {pkt : MediaPacket}

theorem counts_new (id : ℕ) : ((new id pkt.header.codecId).ingest pkt).Counts [pkt] where
  packets := rfl
  lost := rfl
  codecSwitches := if_neg fun h => h rfl
  last := ⟨pkt, rfl, rfl, if_neg fun h => h rfl⟩
  seqInitialized := rfl

theorem Counts.near_eq (h : p.Counts own) : p.near pkt.header.seq = continues audioFollows pkt own := by
  obtain ⟨last, hlast, hseq, -⟩ := h.last
  rw [near, h.seqInitialized, hseq, continues, hlast]
  rfl

theorem Counts.ingest (h : p.Counts own) (hnext : continues audioFollows pkt own = true) :
    (p.ingest pkt).Counts (own ++ [pkt]) := by
  obtain ⟨last, hlast, hfollows⟩ := continues_iff.mp hnext
  obtain ⟨last', hlast', hseq, hcodec⟩ := h.last
  obtain rfl := Option.some.inj (hlast.symm.trans hlast')
  have hcount := gapLost_add (by decide) hfollows
  have hlost := h.lost
  refine ⟨?_, ?_, ?_, ⟨pkt, List.getLast?_concat, rfl, ?_⟩, rfl⟩
  · rw [List.length_append, ← h.packets]
    rfl
  · rw [travelled_concat hlast]
    change p.lost + gapLost p.seqInitialized p.lastSeq pkt.header.seq + (p.packets + 1) =
      travelled distance own + (pkt.header.seq - last.header.seq).toNat + 1
    rw [h.seqInitialized, hseq]
    omega
  · rw [travelled_concat hlast, ← h.codecSwitches]
    simp only [ParticipantStats.ingest, switch, hcodec]
    split <;> simp_all
  · simp only [ParticipantStats.ingest, hcodec]
    split
    · rfl
    · next heq => exact (not_not.mp heq).symm

end ParticipantStats

theorem modify_concat {α : Type*} (l : List α) (x : α) (f : α → α) :
    (l ++ [x]).modify l.length f = l ++ [f x] := by
  induction l with
  | nil => rfl
  | cons a l ih => exact congrArg (a :: ·) ih

theorem observe_eq_serve :
    observe = serve (fun id (pkt : MediaPacket) => ParticipantStats.new id pkt.header.codecId)
      ParticipantStats.ingest fun p pkt => p.near pkt.header.seq := by
  funext participants pkt
  rw [serve, firstOr_eq_modify, observe, findOrCreateParticipant]
  cases participants.findIdx? (·.near pkt.header.seq) with
  | some i => rfl
  | none => exact modify_concat _ _ _

namespace VideoStreamProbe

/-- The frames that a reassembler returns for some packets. -/
def framesOf (own : List MediaPacket) : List ReassembledVideoFrame :=
  (VideoReassembler.new.answers own).filterMap Prod.snd

def reassembled (own : List MediaPacket) : VideoReassembler :=
  own.foldl (fun r pkt => (r.push pkt).1) VideoReassembler.new

theorem answers_concat (r : VideoReassembler) (own : List MediaPacket) (pkt : MediaPacket) :
    r.answers (own ++ [pkt]) =
      r.answers own ++ [(pkt.header.timestamp,
        ((own.foldl (fun r pkt => (r.push pkt).1) r).push pkt).2)] := by
  induction own generalizing r with
  | nil => rfl
  | cons first own ih =>
      rw [List.cons_append, VideoReassembler.answers, ih, VideoReassembler.answers]
      rfl

theorem framesOf_concat (own : List MediaPacket) (pkt : MediaPacket) :
    framesOf (own ++ [pkt]) = framesOf own ++ ((reassembled own).push pkt).2.toList := by
  rw [framesOf, answers_concat, List.filterMap_append]
  change _ ++ [(pkt.header.timestamp, ((reassembled own).push pkt).2)].filterMap Prod.snd = _
  cases ((reassembled own).push pkt).2 <;> rfl

theorem reassembled_concat (own : List MediaPacket) (pkt : MediaPacket) :
    reassembled (own ++ [pkt]) = ((reassembled own).push pkt).1 := by
  rw [reassembled, List.foldl_append]
  rfl

/-- A frame has the codec of the packet that completes it. -/
theorem push_codecId {r : VideoReassembler} {pkt : MediaPacket} {frame : ReassembledVideoFrame}
    (h : (r.push pkt).2 = some frame) : frame.codecId = pkt.header.codecId := by
  rw [VideoReassembler.push] at h
  split at h
  · have hcodec : (r.entryWith pkt).codecId = some pkt.header.codecId := rfl
    simp only [PendingFrame.assemble, hcodec, Option.bind_eq_bind, Option.bind_some,
      Option.bind_eq_some_iff, Option.some.injEq] at h
    obtain ⟨pieces, -, rfl⟩ := h
    rfl
  · cases h

/-- What a stream shows of its packets, its frames being those that a reassembler makes of
them alone. -/
structure Counts (s : VideoStreamProbe) (own : List MediaPacket) : Prop where
  packets : s.packets = own.length
  lost : s.lost + s.packets = travelled distance own + 1
  frames : s.frames = (framesOf own).length
  keyframes : s.keyframes = (framesOf own).countP (·.isKeyframe)
  bytes : s.bytes = ((framesOf own).map (·.data.length)).sum
  maxFrameBytes : s.maxFrameBytes = (framesOf own).foldl (fun m f => max m f.data.length) 0
  reassembler : s.reassembler = reassembled own
  last : ∃ last, own.getLast? = some last ∧ s.lastSeq = last.header.seq ∧
    s.codec = last.header.codecId ∧ s.wireStreamId = last.header.streamId
  seqInitialized : s.seqInitialized = true

variable {s : VideoStreamProbe} {own : List MediaPacket} {pkt : MediaPacket}

/-- A packet of the stream's codec keeps the frames in progress. -/
theorem ingest_same (h : pkt.header.codecId = s.codec) :
    s.ingest pkt =
      let frames := (s.reassembler.push pkt).2.toList
      { s with
        packets := s.packets + 1
        lost := s.lost + ParticipantStats.gapLost s.seqInitialized s.lastSeq pkt.header.seq
        lastSeq := pkt.header.seq
        seqInitialized := true
        reassembler := (s.reassembler.push pkt).1
        frames := s.frames + frames.length
        keyframes := s.keyframes + frames.countP (·.isKeyframe)
        bytes := s.bytes + (frames.map (·.data.length)).sum
        maxFrameBytes := frames.foldl (fun m f => max m f.data.length) s.maxFrameBytes } := by
  rw [ingest, if_neg (not_not.mpr h)]
  cases hframe : (s.reassembler.push pkt).2 with
  | none => simp [hframe, h]
  | some frame =>
      have hcodec := push_codecId hframe
      cases hkey : frame.isKeyframe <;> simp [hframe, h, hkey, count, hcodec]

theorem counts_push (hpackets : s.packets + 1 = (own ++ [pkt]).length)
    (hlost : s.lost + ParticipantStats.gapLost s.seqInitialized s.lastSeq pkt.header.seq +
      (s.packets + 1) = travelled distance (own ++ [pkt]) + 1)
    (hframes : s.frames = (framesOf own).length)
    (hkeyframes : s.keyframes = (framesOf own).countP (·.isKeyframe))
    (hbytes : s.bytes = ((framesOf own).map (·.data.length)).sum)
    (hmax : s.maxFrameBytes = (framesOf own).foldl (fun m f => max m f.data.length) 0)
    (hreassembler : s.reassembler = reassembled own)
    (hcodec : pkt.header.codecId = s.codec) (hwire : s.wireStreamId = pkt.header.streamId) :
    (s.ingest pkt).Counts (own ++ [pkt]) := by
  rw [ingest_same hcodec, hreassembler]
  refine ⟨hpackets, hlost, ?_, ?_, ?_, ?_, ?_, ⟨pkt, List.getLast?_concat, rfl, hcodec.symm, hwire⟩,
    rfl⟩
  · rw [framesOf_concat, List.length_append, ← hframes]
  · rw [framesOf_concat, List.countP_append, ← hkeyframes]
  · rw [framesOf_concat, List.map_append, List.sum_append, ← hbytes]
  · rw [framesOf_concat, List.foldl_append, ← hmax]
  · rw [reassembled_concat]

theorem counts_new (id : ℕ) :
    ((new id pkt.header.codecId pkt.header.streamId).ingest pkt).Counts [pkt] :=
  show Counts _ ([] ++ [pkt]) from counts_push rfl rfl rfl rfl rfl rfl rfl rfl rfl

theorem Counts.near_eq (h : s.Counts own) : s.near pkt = continues videoFollows pkt own := by
  obtain ⟨last, hlast, hseq, hcodec, hwire⟩ := h.last
  rw [near, h.seqInitialized, hseq, hcodec, hwire, continues, hlast]
  rfl

theorem Counts.ingest (h : s.Counts own) (hnext : continues videoFollows pkt own = true) :
    (s.ingest pkt).Counts (own ++ [pkt]) := by
  obtain ⟨last, hlast, hfollows⟩ := continues_iff.mp hnext
  obtain ⟨last', hlast', hseq, hcodec, hwire⟩ := h.last
  obtain rfl := Option.some.inj (hlast.symm.trans hlast')
  rw [videoFollows, Bool.and_eq_true, Bool.and_eq_true, decide_eq_true_eq, decide_eq_true_eq]
    at hfollows
  obtain ⟨hstream, hsame, hclose⟩ := hfollows
  have hcount := gapLost_add (by decide) hclose
  have hlost := h.lost
  refine counts_push ?_ ?_ h.frames h.keyframes h.bytes h.maxFrameBytes h.reassembler
    (by rw [hcodec, hsame]) (by rw [hwire, hstream])
  · rw [List.length_append, ← h.packets]
    rfl
  · rw [travelled_concat hlast, h.seqInitialized, hseq]
    change _ = travelled distance own + (pkt.header.seq - last.header.seq).toNat + 1
    omega

end VideoStreamProbe

/-! ## Whole streams -/
section streams
variable {α ι : Type*}

theorem continues_map {follows : MediaPacket → MediaPacket → Bool} (f : α → MediaPacket) (x : α)
    (t : List α) :
    continues follows (f x) (t.map f) = continues (fun a b => follows (f a) (f b)) x t := by
  rw [continues, continues, List.getLast?_map]
  cases t.getLast? <;> rfl

/-- The participants are the threads of their packets. -/
theorem participants_threads (f : α → MediaPacket) (arrivals : List α) :
    List.Forall₂ (fun p t => p.Counts (t.map f)) (observeAll (arrivals.map f))
      (threads (fun a b => audioFollows (f a) (f b)) arrivals) := by
  rw [observeAll, observe_eq_serve, List.foldl_map]
  change List.Forall₂ _ (arrivals.foldl (serve
    (fun id a => ParticipantStats.new id (f a).header.codecId) (fun p a => p.ingest (f a))
    fun p a => p.near (f a).header.seq) []) _
  refine forall₂_serve ?_ ?_ ?_ arrivals
  · intro p t x h
    rw [h.near_eq, continues_map]
  · exact fun id x => ParticipantStats.counts_new id
  · intro p t x h hx
    rw [List.map_append]
    refine h.ingest ?_
    rw [continues_map, hx]

theorem participants_ids (packets : List MediaPacket) :
    (observeAll packets).map (·.streamId) = List.range (observeAll packets).length := by
  rw [observeAll, observe_eq_serve]
  refine map_serve_id ?_ ?_ packets
  · exact fun n x => rfl
  · exact fun p x => rfl

theorem ingest_eq_serve {pkt : MediaPacket} (streams : VideoProbe)
    (h : pkt.header.mediaType = .video) :
    VideoProbe.ingest streams pkt =
      serve (fun id (pkt : MediaPacket) =>
          VideoStreamProbe.new id pkt.header.codecId pkt.header.streamId)
        VideoStreamProbe.ingest VideoStreamProbe.near streams pkt := by
  rw [serve, firstOr_eq_modify, VideoProbe.ingest, if_neg (not_not.mpr h),
    VideoProbe.findOrCreateStream]
  cases streams.findIdx? (·.near pkt) with
  | some i => rfl
  | none => exact modify_concat _ _ _

theorem ingestAll_eq_serve (packets : List MediaPacket) :
    VideoProbe.ingestAll packets =
      (packets.filter fun pkt => pkt.header.mediaType = .video).foldl
        (serve (fun id (pkt : MediaPacket) =>
            VideoStreamProbe.new id pkt.header.codecId pkt.header.streamId)
          VideoStreamProbe.ingest VideoStreamProbe.near) [] := by
  rw [VideoProbe.ingestAll, List.foldl_filter]
  congr 1
  funext streams pkt
  by_cases hvideo : pkt.header.mediaType = .video
  · rw [if_pos (decide_eq_true hvideo), ingest_eq_serve streams hvideo]
  · rw [if_neg (by simpa using hvideo), VideoProbe.ingest, if_pos hvideo]

theorem streams_threads (f : α → MediaPacket) (arrivals : List α) :
    List.Forall₂ (fun s t => s.Counts (t.map f)) (VideoProbe.ingestAll (arrivals.map f))
      (threads (fun a b => videoFollows (f a) (f b))
        (arrivals.filter fun a => (f a).header.mediaType = .video)) := by
  rw [ingestAll_eq_serve, List.filter_map, List.foldl_map]
  change List.Forall₂ _ (List.foldl (serve
    (fun id a => VideoStreamProbe.new id (f a).header.codecId (f a).header.streamId)
    (fun s a => s.ingest (f a)) fun s a => s.near (f a)) []
      (arrivals.filter fun a => (f a).header.mediaType = .video)) _
  refine forall₂_serve ?_ ?_ ?_ _
  · intro s t x h
    rw [h.near_eq, continues_map]
  · exact fun id x => VideoStreamProbe.counts_new id
  · intro s t x h hx
    rw [List.map_append]
    refine h.ingest ?_
    rw [continues_map, hx]

/-! ## Separated senders -/
variable [DecidableEq ι]

/-- The senders of a room have one participant each, in the order of their first packets, as
long as every packet is close behind the last one of its own sender and of no other: each
participant shows its sender's packets, losses and changes of codec. -/
theorem participants_separate (arrivals : List (ι × MediaPacket))
    (h : Separated (fun a b : ι × MediaPacket => audioFollows a.2 b.2) Prod.fst arrivals) :
    let participants := observeAll (arrivals.map Prod.snd)
    participants.map (·.streamId) = List.range participants.length ∧
      List.Forall₂ (fun p i => p.Counts ((own Prod.fst arrivals i).map Prod.snd)) participants
        (names Prod.fst arrivals) := by
  refine ⟨participants_ids _, ?_⟩
  have hthreads := participants_threads Prod.snd arrivals
  rw [threads_eq_own h, List.forall₂_map_right_iff] at hthreads
  exact hthreads

/-- A packet of a two-sender room. -/
def roomPacket (mediaType : MediaType) (codecId : CodecId) (seq : UInt32) : MediaPacket :=
  ⟨{ Crypto.ChaChaSession.sampleHeader with mediaType, codecId, seq }, [], none⟩

/-- The first sender's counter wraps, and three of its packets are lost. -/
def audioRoom : List (Bool × MediaPacket) :=
  [(true, roomPacket .audio .opus24k 0xFFFFFFFE), (false, roomPacket .audio .opus24k 1000),
    (true, roomPacket .audio .opus6k 2), (false, roomPacket .audio .opus24k 1001)]

theorem audioRoom_separated :
    Separated (fun a b : Bool × MediaPacket => audioFollows a.2 b.2) Prod.fst audioRoom := by
  change Separated _ _ ((([] ++ [_]) ++ [_]) ++ [_] ++ [_])
  simp only [separated_concat]
  exact ⟨⟨⟨⟨separated_nil, by decide⟩, by decide⟩, by decide⟩, by decide⟩

theorem participants_separate_room :
    let participants := observeAll (audioRoom.map Prod.snd)
    participants.map (·.streamId) = List.range participants.length ∧
      List.Forall₂ (fun p i => p.Counts ((own Prod.fst audioRoom i).map Prod.snd)) participants
        (names Prod.fst audioRoom) :=
  participants_separate audioRoom audioRoom_separated

/-- Whatever arrives, every packet is counted once, and a participant's packets follow each
other closely. There is one participant exactly if each packet is close behind the one before
it: a packet that is late, a copy or behind a longer gap shows as another participant. -/
theorem participants_account (packets : List MediaPacket) :
    (∃ ts : List (List MediaPacket), ts.flatten.Perm packets ∧
      (∀ t ∈ ts, t.IsChain fun a b => audioFollows a b = true) ∧
      List.Forall₂ ParticipantStats.Counts (observeAll packets) ts) ∧
    ((observeAll packets).map (·.packets)).sum = packets.length ∧
    ((observeAll packets).length ≤ 1 ↔ packets.IsChain fun a b => audioFollows a b = true) := by
  have hthreads := participants_threads id packets
  simp only [List.map_id] at hthreads
  have hperm : (threads (fun a b => audioFollows (id a) (id b)) packets).flatten.Perm packets :=
    threads_perm packets
  refine ⟨⟨_, hperm, fun t ht => threads_chain ht, hthreads⟩, ?_, ?_⟩
  · rw [← hperm.length_eq, List.length_flatten]
    congr 1
    rw [← List.forall₂_eq_eq_eq, List.forall₂_map_left_iff, List.forall₂_map_right_iff]
    exact hthreads.imp fun p t h => h.packets
  · rw [hthreads.length_eq]
    exact threads_length_le_one_iff

/-- The video streams of a room have one probe each under the same condition, and its frames
are those that a reassembler makes of the stream's packets alone. -/
theorem video_streams_separate (arrivals : List (ι × MediaPacket))
    (h : Separated (fun a b : ι × MediaPacket => videoFollows a.2 b.2) Prod.fst
      (arrivals.filter fun a => a.2.header.mediaType = .video)) :
    let video := arrivals.filter fun a => a.2.header.mediaType = .video
    List.Forall₂ (fun s i => s.Counts ((own Prod.fst video i).map Prod.snd))
      (VideoProbe.ingestAll (arrivals.map Prod.snd)) (names Prod.fst video) := by
  have hthreads := streams_threads Prod.snd arrivals
  rw [threads_eq_own h, List.forall₂_map_right_iff] at hthreads
  exact hthreads

def videoRoom : List (Bool × MediaPacket) :=
  [(true, roomPacket .video .h264Baseline 0), (true, roomPacket .audio .opus24k 1),
    (false, roomPacket .video .av1Main 1), (true, roomPacket .video .h264Baseline 70)]

theorem video_streams_separate_room :
    let video := videoRoom.filter fun a => a.2.header.mediaType = .video
    List.Forall₂ (fun s i => s.Counts ((own Prod.fst video i).map Prod.snd))
      (VideoProbe.ingestAll (videoRoom.map Prod.snd)) (names Prod.fst video) := by
  refine video_streams_separate videoRoom ?_
  change Separated _ _ (([] ++ [_]) ++ [_] ++ [_])
  simp only [separated_concat]
  exact ⟨⟨⟨separated_nil, by decide⟩, by decide⟩, by decide⟩

end streams
end Wzp.Client.Analyzer
