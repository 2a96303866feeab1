import Mathlib.Algebra.GroupWithZero.Nat
import Mathlib.Data.List.Induction
import Mathlib.Data.Set.Insert
import Wzp.Lib.Runs
import Wzp.Relay.RoomState

/-!
# Keyframes kept for new participants

The packets of a keyframe are gathered for each stream and cached when the last
one arrives. The buffer does not know which frame its packets are from.
-/
namespace Wzp.Relay.Sfu
open Bytes Proto Runs

def payloadBytes (packets : List MediaPacket) : ℕ := (packets.map fun p => p.payload.length).sum

/-- A keyframe as its sender splits it into packets. -/
structure Keyframe where
  front : List MediaPacket
  last : MediaPacket
  keyframe : ∀ p ∈ front ++ [last], p.header.isKeyframe = true ∧ p.header.isRepair = false
  frameEnd : last.header.isFrameEnd = true ∧ ∀ p ∈ front, p.header.isFrameEnd = false
  stream : ∀ p ∈ front, p.header.streamId = last.header.streamId
  timestamp : ∀ p ∈ front, p.header.timestamp = last.header.timestamp

namespace Keyframe

def packets (f : Keyframe) : List MediaPacket := f.front ++ [f.last]

def first (f : Keyframe) : MediaPacket := f.front.headD f.last

theorem packets_eq (f : Keyframe) : ∃ rest, f.packets = f.first :: rest := by
  rw [packets, first]
  cases f.front with
  | nil => exact ⟨[], rfl⟩
  | cons first rest => exact ⟨rest ++ [f.last], rfl⟩

end Keyframe

/-! ## One stream -/

/-- The buffer of a stream after one more packet on it that is no repair. -/
def KeyframeBuffer.next (buffer : Option KeyframeBuffer) (pkt : MediaPacket) :
    Option KeyframeBuffer :=
  if pkt.header.isKeyframe then
    let entry := KeyframeBuffer.push buffer pkt
    some (if pkt.header.isFrameEnd then entry.taken else entry)
  else none

def gathered (stream : List MediaPacket) : Option KeyframeBuffer :=
  stream.foldl KeyframeBuffer.next none

/-- A packet is the first in the buffer: there is no buffer, or it would
overflow, or it is empty and left from the same packet. -/
def StartsBuffer (buffer : Option KeyframeBuffer) (pkt : MediaPacket) : Prop :=
  ∀ b, buffer = some b →
    b.totalBytes + pkt.payload.length > keyframeCacheMaxBytes ∨
      b.packets = [] ∧ b.sequenceFirst = pkt.header.seq ∧ b.timestampMs = pkt.header.timestamp

namespace KeyframeBuffer
variable {buffer : Option KeyframeBuffer} {b : KeyframeBuffer} {pkt first : MediaPacket}
  {before rest stream front : List MediaPacket}

/-- The buffer of a frame whose packets so far are `first` and `rest`. -/
def gathering (first : MediaPacket) (rest : List MediaPacket) : KeyframeBuffer :=
  ⟨first :: rest, first.header.seq, first.header.timestamp, payloadBytes (first :: rest)⟩

@[simp] theorem payloadBytes_append (front rest : List MediaPacket) :
    payloadBytes (front ++ rest) = payloadBytes front + payloadBytes rest := by
  rw [payloadBytes, List.map_append, List.sum_append]
  rfl

@[simp] theorem payloadBytes_cons (pkt : MediaPacket) (rest : List MediaPacket) :
    payloadBytes (pkt :: rest) = pkt.payload.length + payloadBytes rest := by
  rw [payloadBytes, List.map_cons, List.sum_cons]
  rfl

@[simp] theorem payloadBytes_nil : payloadBytes [] = 0 := rfl

theorem push_none (pkt : MediaPacket) : push none pkt = gathering pkt [] := by
  rw [push, gathering, payloadBytes_cons]
  dsimp only [Option.getD_none]
  split <;> simp only [List.nil_append, Nat.zero_add, payloadBytes_nil, Nat.add_zero]

theorem push_overflow (h : b.totalBytes + pkt.payload.length > keyframeCacheMaxBytes) :
    push (some b) pkt = gathering pkt [] := by
  rw [push, gathering, payloadBytes_cons]
  dsimp only [Option.getD_some]
  rw [if_pos h]
  simp only [List.nil_append, Nat.zero_add, payloadBytes_nil, Nat.add_zero]

theorem push_some (h : ¬ b.totalBytes + pkt.payload.length > keyframeCacheMaxBytes) :
    push (some b) pkt = { b with
      packets := b.packets ++ [pkt]
      totalBytes := b.totalBytes + pkt.payload.length } := by
  rw [push]
  dsimp only [Option.getD_some]
  rw [if_neg h]

theorem push_gathering (h : payloadBytes (first :: rest ++ [pkt]) ≤ keyframeCacheMaxBytes) :
    push (some (gathering first rest)) pkt = gathering first (rest ++ [pkt]) := by
  have hbytes : payloadBytes (first :: (rest ++ [pkt])) =
      payloadBytes (first :: rest) + pkt.payload.length := by
    simp only [payloadBytes_cons, payloadBytes_append, payloadBytes_nil]
    omega
  have hroom : ¬ (gathering first rest).totalBytes + pkt.payload.length > keyframeCacheMaxBytes :=
    Nat.not_lt.mpr (hbytes ▸ h)
  rw [push_some hroom, gathering, gathering, hbytes]
  rfl

/-! ### What the buffer holds -/

/-- The buffer holds the last packets of the stream, with the numbers that the
first of them found or brought. -/
structure Holds (b : KeyframeBuffer) (stream : List MediaPacket) : Prop where
  bytes : b.totalBytes = payloadBytes b.packets
  packets : ∀ first rest, b.packets = first :: rest → ∃ before, stream = before ++ first :: rest ∧
    (push (gathered before) first).packets = [first] ∧
    (push (gathered before) first).totalBytes = first.payload.length ∧
    b.sequenceFirst = (push (gathered before) first).sequenceFirst ∧
    b.timestampMs = (push (gathered before) first).timestampMs

theorem holds_single (h : push (gathered stream) pkt = gathering pkt []) :
    (push (gathered stream) pkt).Holds (stream ++ [pkt]) := by
  constructor
  · rw [h]
    rfl
  · intro first rest hcons
    rw [h] at hcons
    obtain ⟨rfl, rfl⟩ := List.cons.inj hcons
    exact ⟨stream, rfl, by rw [h]; rfl, by rw [h]; rfl, rfl, rfl⟩

theorem Holds.push (h : ∀ b, gathered stream = some b → b.Holds stream) (pkt : MediaPacket) :
    (push (gathered stream) pkt).Holds (stream ++ [pkt]) := by
  cases hbuffer : gathered stream with
  | none =>
      rw [← hbuffer]
      exact holds_single (by rw [hbuffer, push_none])
  | some b =>
      rw [← hbuffer]
      by_cases hroom : b.totalBytes + pkt.payload.length > keyframeCacheMaxBytes
      · exact holds_single (by rw [hbuffer, push_overflow hroom])
      · have hpush := push_some hroom
        have hold := h b hbuffer
        constructor
        · rw [hbuffer, hpush, payloadBytes_append, ← hold.bytes]
          rfl
        · intro first rest hcons
          rw [hbuffer, hpush] at hcons
          cases hpackets : b.packets with
          | nil =>
              rw [hpackets] at hcons
              obtain ⟨rfl, rfl⟩ := List.cons.inj hcons
              have hbytes := hold.bytes
              rw [hpackets] at hbytes
              refine ⟨stream, rfl, ?_, ?_, rfl, rfl⟩
              · rw [hbuffer, hpush, hpackets]
                rfl
              · rw [hbuffer, hpush, hbytes]
                exact Nat.zero_add _
          | cons first' rest' =>
              rw [hpackets] at hcons
              obtain ⟨rfl, rfl⟩ := List.cons.inj hcons
              obtain ⟨before, hstream, hsingle, hlength, hseq, hts⟩ := hold.packets _ _ hpackets
              refine ⟨before, ?_, hsingle, hlength, ?_, ?_⟩
              · rw [hstream, List.append_assoc]
                rfl
              · rw [hbuffer, hpush, ← hseq]
              · rw [hbuffer, hpush, ← hts]

theorem gathered_concat (stream : List MediaPacket) (pkt : MediaPacket) :
    gathered (stream ++ [pkt]) = next (gathered stream) pkt := List.foldl_concat _ _ _ _

theorem gathered_holds (stream : List MediaPacket) :
    ∀ b, gathered stream = some b → b.Holds stream := by
  induction stream using List.reverseRecOn with
  | nil => exact fun b hb => nomatch hb
  | append_singleton stream pkt ih =>
      intro b hb
      have hpush := Holds.push ih pkt
      rw [gathered_concat, next] at hb
      split at hb
      · obtain rfl := Option.some.inj hb
        split
        · exact ⟨rfl, fun first rest hcons => nomatch hcons⟩
        · exact hpush
      · exact nomatch hb

/-! ### Starting and filling the buffer -/

theorem push_of_starts (h : StartsBuffer (gathered stream) pkt) :
    push (gathered stream) pkt = gathering pkt [] := by
  cases hbuffer : gathered stream with
  | none => exact push_none pkt
  | some b =>
      by_cases hroom : b.totalBytes + pkt.payload.length > keyframeCacheMaxBytes
      · exact push_overflow hroom
      · obtain ⟨hnil, hseq, hts⟩ := (h b hbuffer).resolve_left hroom
        have hbytes : b.totalBytes = 0 := by
          rw [(gathered_holds stream b hbuffer).bytes, hnil]
          rfl
        rw [push_some hroom, hnil, hseq, hts, hbytes, gathering]
        simp only [List.nil_append, payloadBytes_cons, payloadBytes_nil, Nat.zero_add, Nat.add_zero]

theorem starts_of_push (hpackets : (push buffer pkt).packets = [pkt])
    (hseq : (push buffer pkt).sequenceFirst = pkt.header.seq)
    (hts : (push buffer pkt).timestampMs = pkt.header.timestamp) : StartsBuffer buffer pkt := by
  rintro b rfl
  by_cases hroom : b.totalBytes + pkt.payload.length > keyframeCacheMaxBytes
  · exact Or.inl hroom
  · rw [push_some hroom] at hpackets hseq hts
    exact Or.inr ⟨(List.append_left_inj [pkt]).mp hpackets, hseq, hts⟩

/-- The packets of a frame before its last, in a buffer they start. -/
theorem gathered_front (hstarts : StartsBuffer (gathered before) first)
    (hfragments : ∀ p ∈ first :: rest, p.header.isKeyframe = true ∧ p.header.isFrameEnd = false)
    (hbytes : payloadBytes (first :: rest) ≤ keyframeCacheMaxBytes) :
    gathered (before ++ first :: rest) = some (gathering first rest) := by
  induction rest using List.reverseRecOn with
  | nil =>
      have hfirst := hfragments first List.mem_cons_self
      rw [gathered_concat, next, if_pos hfirst.1, push_of_starts hstarts]
      exact congrArg some (if_neg (Bool.eq_false_iff.mp hfirst.2))
  | append_singleton rest pkt ih =>
      have hpkt := hfragments pkt (List.mem_cons_of_mem _ (List.mem_append_right _ List.mem_cons_self))
      have hfewer : payloadBytes (first :: rest) ≤ keyframeCacheMaxBytes := by
        rw [← List.cons_append, payloadBytes_append] at hbytes
        omega
      have hprefix := ih (fun p hp => hfragments p (List.mem_append_left [pkt] hp)) hfewer
      rw [← List.cons_append, ← List.append_assoc, gathered_concat, hprefix, next, if_pos hpkt.1,
        push_gathering hbytes]
      exact congrArg some (if_neg (Bool.eq_false_iff.mp hpkt.2))

end KeyframeBuffer

/-! ## Whole keyframes -/

/-- The entry is the frame, numbered as its first packet. -/
structure KeyframeCacheEntry.IsWhole (e : KeyframeCacheEntry) (f : Keyframe) : Prop where
  packets : e.packets = f.packets
  sequenceFirst : e.sequenceFirst = f.first.header.seq
  timestampMs : e.timestampMs = f.first.header.timestamp
  totalBytes : e.totalBytes ≤ keyframeCacheMaxBytes

namespace KeyframeBuffer
variable {f : Keyframe} {stream : List MediaPacket} {pkt : MediaPacket}

theorem Keyframe.stream_eq {before : List MediaPacket}
    (hstream : stream ++ [pkt] = before ++ f.packets) : stream = before ++ f.front ∧ pkt = f.last := by
  rw [Keyframe.packets, ← List.append_assoc] at hstream
  obtain ⟨hfront, hlast⟩ := List.append_inj' hstream rfl
  exact ⟨hfront, (List.cons.inj hlast).1⟩

theorem push_last {before : List MediaPacket} (hstream : stream ++ [pkt] = before ++ f.packets)
    (hstarts : StartsBuffer (gathered before) f.first)
    (hbytes : payloadBytes f.packets ≤ keyframeCacheMaxBytes) :
    ∃ rest, f.packets = f.first :: rest ∧ push (gathered stream) pkt = gathering f.first rest := by
  obtain ⟨rfl, rfl⟩ := Keyframe.stream_eq hstream
  have hfragments : ∀ p ∈ f.front, p.header.isKeyframe = true ∧ p.header.isFrameEnd = false :=
    fun p hp => ⟨(f.keyframe p (List.mem_append_left _ hp)).1, f.frameEnd.2 p hp⟩
  rw [Keyframe.packets] at hbytes ⊢
  rw [Keyframe.first] at hstarts ⊢
  cases hfront : f.front with
  | nil =>
      rw [hfront] at hstarts
      rw [List.append_nil]
      exact ⟨[], rfl, push_of_starts hstarts⟩
  | cons first rest =>
      rw [hfront] at hstarts hfragments hbytes
      have hfewer : payloadBytes (first :: rest) ≤ keyframeCacheMaxBytes := by
        rw [payloadBytes_append] at hbytes
        omega
      have hgathered : gathered (before ++ first :: rest) = some (gathering first rest) :=
        gathered_front hstarts hfragments hfewer
      rw [hgathered]
      exact ⟨rest ++ [f.last], rfl, push_gathering hbytes⟩

/-- The entry that a frame's last packet leads to is the frame exactly if the
stream has just had all its packets, and the first of them started the buffer. -/
theorem completed_isWhole_iff :
    (push (gathered stream) pkt).completed.IsWhole f ↔
      ∃ before, stream ++ [pkt] = before ++ f.packets ∧ StartsBuffer (gathered before) f.first ∧
        payloadBytes f.packets ≤ keyframeCacheMaxBytes := by
  constructor
  · intro h
    have hholds := Holds.push (gathered_holds stream) pkt
    obtain ⟨rest, hrest⟩ : ∃ rest, f.packets = f.first :: rest := f.packets_eq
    have hpackets : (push (gathered stream) pkt).packets = f.first :: rest :=
      h.packets.trans hrest
    obtain ⟨before, hstream, hsingle, -, hseq, hts⟩ := hholds.packets _ _ hpackets
    refine ⟨before, hstream.trans (by rw [hrest]), ?_, ?_⟩
    · exact starts_of_push hsingle (hseq.symm.trans h.sequenceFirst) (hts.symm.trans h.timestampMs)
    · rw [← h.packets]
      exact hholds.bytes ▸ h.totalBytes
  · rintro ⟨before, hstream, hstarts, hbytes⟩
    obtain ⟨rest, hrest, hpush⟩ := push_last hstream hstarts hbytes
    rw [hrest] at hbytes
    rw [hpush]
    exact ⟨hrest.symm, rfl, rfl, hbytes⟩

end KeyframeBuffer
/-! ## All streams -/

/-- A packet of a participant that the cache is updated with. -/
structure KeyframeCall where
  room : RoomName
  sender : ParticipantId
  pkt : MediaPacket

def KeyframeCall.key (c : KeyframeCall) : StreamKey := (c.room, c.sender, c.pkt.header.streamId)

/-- The packets of a stream that are no repair. -/
def onStream (key : StreamKey) (seen : List KeyframeCall) : List MediaPacket :=
  (seen.filter fun c => c.key = key ∧ c.pkt.header.isRepair = false).map KeyframeCall.pkt

structure KeyframeFeed where
  manager : RoomManager
  seen : List KeyframeCall

namespace KeyframeFeed
variable {sent : RoomName → ParticipantId → Set Keyframe} {s : KeyframeFeed} {c : KeyframeCall}
  {key : StreamKey}

def start (m : RoomManager) : KeyframeFeed := ⟨m, []⟩

def step (s : KeyframeFeed) (c : KeyframeCall) : KeyframeFeed :=
  ⟨s.manager.updateKeyframeCache c.room c.sender c.pkt, s.seen ++ [c]⟩

/-- Every cached keyframe is one that its sender sent, and all its packets came. -/
def CacheWhole (sent : RoomName → ParticipantId → Set Keyframe) (s : KeyframeFeed) : Prop :=
  s.manager.keyframeCache.All fun key e =>
    ∃ f ∈ sent key.1 key.2.1, e.IsWhole f ∧ f.packets.Sublist (onStream key s.seen)

/-- A keyframe that ends has just come whole on its stream, was the first in the
buffer and fits into it. -/
def EndsWhole (sent : RoomName → ParticipantId → Set Keyframe) (s : KeyframeFeed)
    (c : KeyframeCall) : Prop :=
  c.pkt.header.isRepair = false → c.pkt.header.isKeyframe = true →
    c.pkt.header.isFrameEnd = true → ∃ f ∈ sent c.room c.sender, ∃ before,
      onStream c.key s.seen ++ [c.pkt] = before ++ f.packets ∧
        StartsBuffer (gathered before) f.first ∧ payloadBytes f.packets ≤ keyframeCacheMaxBytes

/-- The buffers are what the streams lead to. -/
def Gathered (s : KeyframeFeed) : Prop :=
  ∀ key, s.manager.keyframeBuffer.lookup key = gathered (onStream key s.seen)

theorem onStream_append (key : StreamKey) (seen : List KeyframeCall) (c : KeyframeCall) :
    onStream key (seen ++ [c]) = onStream key seen ++
      if c.key = key ∧ c.pkt.header.isRepair = false then [c.pkt] else [] := by
  rw [onStream, List.filter_append, List.map_append, onStream]
  by_cases h : c.key = key ∧ c.pkt.header.isRepair = false
  · have hlast : [c].filter (fun c => c.key = key ∧ c.pkt.header.isRepair = false) = [c] :=
      List.filter_cons_of_pos (decide_eq_true h)
    rw [if_pos h, hlast]
    rfl
  · have hlast : [c].filter (fun c => c.key = key ∧ c.pkt.header.isRepair = false) = [] :=
      List.filter_cons_of_neg (mt of_decide_eq_true h)
    rw [if_neg h, hlast]
    rfl

theorem onStream_sublist (key : StreamKey) (seen : List KeyframeCall) (c : KeyframeCall) :
    (onStream key seen).Sublist (onStream key (seen ++ [c])) := by
  rw [onStream_append]
  exact List.sublist_append_left _ _

theorem CacheWhole.later (h : s.CacheWhole sent) (c : KeyframeCall) :
    s.manager.keyframeCache.All fun key e =>
      ∃ f ∈ sent key.1 key.2.1, e.IsWhole f ∧ f.packets.Sublist (onStream key (s.step c).seen) :=
  h.mono fun key _ ⟨f, hf, hwhole, hcame⟩ =>
    ⟨f, hf, hwhole, hcame.trans (onStream_sublist key s.seen c)⟩

/-! ### One packet -/

theorem step_of_repair (hrepair : c.pkt.header.isRepair = true) :
    (s.step c).manager = s.manager := if_pos hrepair

theorem keyframeBuffer_step (hrepair : c.pkt.header.isRepair = false) (key : StreamKey) :
    (s.step c).manager.keyframeBuffer.lookup key =
      if key = c.key then KeyframeBuffer.next (s.manager.keyframeBuffer.lookup c.key) c.pkt
      else s.manager.keyframeBuffer.lookup key := by
  have hnot : ¬ c.pkt.header.isRepair = true := Bool.eq_false_iff.mp hrepair
  rw [step, RoomManager.updateKeyframeCache, KeyframeBuffer.next]
  dsimp only
  rw [if_neg hnot]
  split
  · split
    · exact Table.lookup_insert _ _ _ _
    · exact Table.lookup_insert _ _ _ _
  · exact Table.lookup_erase _ _ _

theorem keyframeCache_step_end (hrepair : c.pkt.header.isRepair = false)
    (hkeyframe : c.pkt.header.isKeyframe = true) (hend : c.pkt.header.isFrameEnd = true) :
    (s.step c).manager.keyframeCache = s.manager.keyframeCache.insert c.key
      (KeyframeBuffer.push (s.manager.keyframeBuffer.lookup c.key) c.pkt).completed := by
  have hnot : ¬ c.pkt.header.isRepair = true := Bool.eq_false_iff.mp hrepair
  rw [step, RoomManager.updateKeyframeCache]
  dsimp only
  rw [if_neg hnot, if_pos hkeyframe, if_pos hend]
  rfl

theorem keyframeCache_step_other (h : ¬ (c.pkt.header.isRepair = false ∧
    c.pkt.header.isKeyframe = true ∧ c.pkt.header.isFrameEnd = true)) :
    (s.step c).manager.keyframeCache = s.manager.keyframeCache := by
  rw [step, RoomManager.updateKeyframeCache]
  dsimp only
  split
  · rfl
  · rename_i hrepair
    split
    · rename_i hkeyframe
      rw [if_neg fun hend => h ⟨Bool.eq_false_iff.mpr hrepair, hkeyframe, hend⟩]
    · rfl

theorem gathered_step (h : s.Gathered) (c : KeyframeCall) : (s.step c).Gathered := by
  intro key
  have hseen : (s.step c).seen = s.seen ++ [c] := rfl
  rw [hseen, onStream_append]
  cases hrepair : c.pkt.header.isRepair with
  | true =>
      have hnot : ¬ (c.key = key ∧ true = false) := fun hc => nomatch hc.2
      rw [step_of_repair hrepair, h key, if_neg hnot, List.append_nil]
  | false =>
      rw [keyframeBuffer_step hrepair]
      split
      · rename_i hkey
        subst hkey
        rw [if_pos ⟨rfl, rfl⟩, KeyframeBuffer.gathered_concat, h]
      · rename_i hkey
        have hnot : ¬ (c.key = key ∧ false = false) := fun hc => hkey hc.1.symm
        rw [if_neg hnot, List.append_nil, h key]

theorem cacheWhole_step (hgathered : s.Gathered) (h : s.CacheWhole sent) (c : KeyframeCall) :
    (s.step c).CacheWhole sent ↔ s.EndsWhole sent c := by
  by_cases hends : c.pkt.header.isRepair = false ∧ c.pkt.header.isKeyframe = true ∧
      c.pkt.header.isFrameEnd = true
  · obtain ⟨hrepair, hkeyframe, hend⟩ := hends
    rw [CacheWhole, keyframeCache_step_end hrepair hkeyframe hend, hgathered c.key]
    have hseen : onStream c.key (s.step c).seen = onStream c.key s.seen ++ [c.pkt] := by
      rw [step, onStream_append, if_pos ⟨rfl, hrepair⟩]
    constructor
    · intro hwhole _ _ _
      obtain ⟨f, hf, hisWhole, -⟩ := hwhole _ _ (Table.lookup_insert_self _ _ _)
      exact ⟨f, hf, KeyframeBuffer.completed_isWhole_iff.mp hisWhole⟩
    · intro hwhole
      obtain ⟨f, hf, before, hstream, hrest⟩ := hwhole hrepair hkeyframe hend
      refine (h.later c).insert ⟨f, hf, ?_, ?_⟩
      · exact KeyframeBuffer.completed_isWhole_iff.mpr ⟨before, hstream, hrest⟩
      · rw [hseen, hstream]
        exact List.sublist_append_right _ _
  · rw [CacheWhole, keyframeCache_step_other hends]
    exact iff_of_true (h.later c) fun hrepair hkeyframe hend =>
      absurd ⟨hrepair, hkeyframe, hend⟩ hends

/-- The cache holds only whole keyframes exactly as long as every keyframe that
ends has come whole on its stream and was alone in the buffer. -/
theorem cache_whole_iff (sent : RoomName → ParticipantId → Set Keyframe) (id : ParticipantId)
    (calls : List KeyframeCall) :
    Throughout step (CacheWhole sent) (start (.new id)) calls ↔
      EachStep step (EndsWhole sent) (start (.new id)) calls :=
  throughout_iff_eachStep (I := Gathered) (fun _ c h _ _ => gathered_step h c)
    (fun _ c hgathered h => cacheWhole_step hgathered h c) (fun _ => rfl) Table.all_empty

/-! ### A keyframe with a gap -/

/-- A packet of a keyframe on stream 0. -/
def fragment (flags : UInt8) (seq : UInt32) : MediaPacket :=
  ⟨⟨2, flags, .video, .h264Baseline, 0, 0, seq, 40, 0⟩, [seq.toUInt8], none⟩

def twoFragments : Keyframe where
  front := [fragment MediaHeader.flagKeyframe 10]
  last := fragment (MediaHeader.flagKeyframe ||| MediaHeader.flagFrameEnd) 11
  keyframe := by decide
  frameEnd := by decide
  stream := by decide
  timestamp := by decide

/-- An audio packet of the sender comes between the two. -/
def interrupted : List KeyframeCall :=
  [⟨[1], 1, fragment MediaHeader.flagKeyframe 10⟩,
    ⟨[1], 1, ⟨⟨2, 0, .audio, .opus24k, 0, 0, 7, 40, 0⟩, [0], none⟩⟩,
    ⟨[1], 1, twoFragments.last⟩]

theorem interrupted_cache :
    (run step (start (.new 1)) interrupted).manager.keyframeCache.lookup ([1], 1, 0) =
      some ⟨[twoFragments.last], 11, 40, 1⟩ := by decide

theorem half_keyframe_cached :
    ¬ Throughout step (CacheWhole fun _ _ => {twoFragments}) (start (.new 1)) interrupted := by
  intro h
  obtain ⟨f, hf, hwhole, -⟩ := h.last _ _ interrupted_cache
  obtain rfl := Set.mem_singleton_iff.mp hf
  exact absurd hwhole.packets (by decide)

end KeyframeFeed
end Wzp.Relay.Sfu
