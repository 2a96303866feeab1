import Mathlib.Order.Monotone.Basic
import Wzp.Desktop.VideoContinuity

/-!
# The frames a decoded frame is predicted from

A keyframe first, then each frame predicted from the one before it. The packets of
the stream arrive in any order, from any point on, some of them never, some twice.
-/
namespace Wzp.Desktop
open Bytes Proto Video Runs

structure SentFrame where
  data : Buf
  nonempty : data ≠ []
  isKeyframe : Bool
  timestampMs : UInt32
  width : UInt32
  height : UInt32

structure VideoStream where
  codecId : CodecId
  /-- The number of its first packet. -/
  start : UInt32
  frame : ℕ → SentFrame
  keyframeFirst : (frame 0).isKeyframe = true

namespace VideoStream

def packetize (s : VideoStream) (i : ℕ) (seq : UInt32) : List MediaPacket × UInt32 :=
  packetizeVideoFrame (s.frame i).data s.codecId (s.frame i).isKeyframe seq (s.frame i).timestampMs
    (s.frame i).width (s.frame i).height

/-- The number the frame starts with. -/
def seqBefore (s : VideoStream) : ℕ → UInt32
  | 0 => s.start
  | i + 1 => (s.packetize i (s.seqBefore i)).2

def packets (s : VideoStream) (i : ℕ) : List MediaPacket := (s.packetize i (s.seqBefore i)).1

/-- How many packets there are before those of the frame. -/
def first (s : VideoStream) : ℕ → ℕ
  | 0 => 0
  | i + 1 => s.first i + (s.packets i).length

variable (s : VideoStream)

theorem packets_spec (i : ℕ) :
    ∃ pieces : List Buf, 0 < pieces.length ∧ pieces.length < 256 ∧
      s.packetize i (s.seqBefore i) =
        ((pieces.zipIdx).map fun (chunk, j) =>
          fragmentPacket s.codecId (s.frame i).isKeyframe (s.seqBefore i) (s.frame i).timestampMs
            pieces.length j chunk,
          s.seqBefore i + UInt32.ofNat pieces.length) :=
  packetize_spec _ _ _ _ _ _ (s.frame i).nonempty

theorem length_packets (i : ℕ) : 0 < (s.packets i).length ∧ (s.packets i).length < 256 := by
  obtain ⟨pieces, hpos, hlt, heq⟩ := s.packets_spec i
  rw [packets, heq, List.length_map, List.length_zipIdx]
  exact ⟨hpos, hlt⟩

theorem seqBefore_eq (i : ℕ) : s.seqBefore i = s.start + UInt32.ofNat (s.first i) := by
  induction i with
  | zero => exact (UInt32.add_zero s.start).symm
  | succ i ih =>
      obtain ⟨pieces, -, -, heq⟩ := s.packets_spec i
      rw [seqBefore, first, packets, heq, List.length_map, List.length_zipIdx, UInt32.ofNat_add,
        ← UInt32.add_assoc, ← ih]

theorem first_lt_first_succ (i : ℕ) : s.first i < s.first (i + 1) := by
  have hpos := (s.length_packets i).1
  rw [first]
  omega

theorem first_mono {i j : ℕ} (h : i ≤ j) : s.first i ≤ s.first j :=
  monotone_nat_of_le_succ (fun i => (s.first_lt_first_succ i).le) h

/-- The packets of a frame lie between its first number and that of the next frame. -/
theorem frame_unique {i j p : ℕ} (hi : s.first i ≤ p) (hi' : p < s.first (i + 1))
    (hj : s.first j ≤ p) (hj' : p < s.first (j + 1)) : i = j := by
  by_contra hne
  rcases Nat.lt_or_gt_of_ne hne with hlt | hlt
  · have hle := s.first_mono (Nat.add_one_le_iff.mpr hlt)
    omega
  · have hle := s.first_mono (Nat.add_one_le_iff.mpr hlt)
    omega

end VideoStream

/-- A packet of the stream as it arrives. -/
structure StreamArrival (s : VideoStream) where
  now : ℕ
  frame : ℕ
  fragment : ℕ
  inFrame : fragment < (s.packets frame).length

namespace StreamArrival
variable {s : VideoStream}

def packet (a : StreamArrival s) : MediaPacket := (s.packets a.frame).get ⟨a.fragment, a.inFrame⟩

/-- Its place among all packets of the stream. -/
def position (a : StreamArrival s) : ℕ := s.first a.frame + a.fragment

def timestamp (a : StreamArrival s) : UInt32 := (s.frame a.frame).timestampMs

theorem position_lt (a : StreamArrival s) : a.position < s.first (a.frame + 1) := by
  have hlt := a.inFrame
  rw [VideoStream.first, position]
  omega

theorem packet_eq (a : StreamArrival s) :
    ∃ chunk, a.packet = fragmentPacket s.codecId (s.frame a.frame).isKeyframe
      (s.seqBefore a.frame) a.timestamp (s.packets a.frame).length a.fragment chunk := by
  obtain ⟨pieces, -, -, heq⟩ := s.packets_spec a.frame
  have hpackets : s.packets a.frame = (pieces.zipIdx).map fun (chunk, j) =>
      fragmentPacket s.codecId (s.frame a.frame).isKeyframe (s.seqBefore a.frame) a.timestamp
        pieces.length j chunk := congrArg Prod.fst heq
  have hlength : (s.packets a.frame).length = pieces.length := by
    rw [hpackets, List.length_map, List.length_zipIdx]
  have hlt : a.fragment < pieces.length := hlength ▸ a.inFrame
  refine ⟨pieces.get ⟨a.fragment, hlt⟩, ?_⟩
  have hget := (congrArg (·[a.fragment]?) hpackets).symm.trans
    (List.getElem?_eq_getElem a.inFrame)
  dsimp only at hget
  rw [List.getElem?_map, List.getElem?_zipIdx, List.getElem?_eq_getElem hlt] at hget
  have hpacket := Option.some.inj hget
  rw [Nat.zero_add] at hpacket
  rw [hlength]
  exact hpacket.symm

theorem packet_timestamp (a : StreamArrival s) : a.packet.header.timestamp = a.timestamp := by
  obtain ⟨chunk, heq⟩ := a.packet_eq
  rw [heq]
  rfl

theorem packet_mediaType (a : StreamArrival s) : a.packet.header.mediaType = .video := by
  obtain ⟨chunk, heq⟩ := a.packet_eq
  rw [heq]
  rfl

theorem packet_seq (a : StreamArrival s) :
    a.packet.header.seq = s.start + UInt32.ofNat a.position := by
  obtain ⟨chunk, heq⟩ := a.packet_eq
  have hseq : a.packet.header.seq = s.seqBefore a.frame + UInt32.ofNat a.fragment := by
    rw [heq]
    rfl
  rw [hseq, s.seqBefore_eq, position, UInt32.ofNat_add, UInt32.add_assoc]

theorem packet_isKeyframe (a : StreamArrival s) :
    a.packet.header.isKeyframe = (s.frame a.frame).isKeyframe := by
  obtain ⟨chunk, heq⟩ := a.packet_eq
  rw [heq, isKeyframe_fragmentPacket]

theorem packet_isFrameEnd (a : StreamArrival s) :
    a.packet.header.isFrameEnd = true ↔ a.position + 1 = s.first (a.frame + 1) := by
  obtain ⟨chunk, heq⟩ := a.packet_eq
  rw [heq, isFrameEnd_fragmentPacket, beq_iff_eq, VideoStream.first, position]
  omega

theorem packet_fragmentIndex (a : StreamArrival s) :
    fragmentIndex a.packet.header = UInt8.ofNat a.fragment := by
  obtain ⟨chunk, heq⟩ := a.packet_eq
  have hlt := (s.length_packets a.frame).2
  rw [heq, fragmentIndex_fragmentPacket _ _ _ _ _ (a.inFrame.trans hlt) hlt]

theorem packet_fragmentCount (a : StreamArrival s) :
    fragmentCount a.packet.header = UInt8.ofNat (s.packets a.frame).length := by
  obtain ⟨chunk, heq⟩ := a.packet_eq
  have hlt := (s.length_packets a.frame).2
  rw [heq, fragmentCount_fragmentPacket _ _ _ _ _ (a.inFrame.trans hlt) hlt]

end StreamArrival

/-! ## Reception -/

/-- The receiver, with what a reader of the stream knows besides: how far the
packets that have arrived go, of which frames they are, and which frames were passed
to the decoder, the latest first. -/
structure Reception where
  receiver : VideoReceiver
  next : ℕ
  arrived : List ℕ
  decoded : List ℕ

namespace Reception

def start : Reception := ⟨VideoReceiver.new, 0, [], []⟩

def passes : VideoAction → Bool
  | .decode _ => true
  | _ => false

def step {s : VideoStream} (r : Reception) (a : StreamArrival s) : Reception :=
  let (receiver, actions) := r.receiver.recvMedia a.now a.packet
  { receiver
    next := max r.next (a.position + 1)
    arrived := a.frame :: r.arrived
    decoded := if actions.any passes then a.frame :: r.decoded else r.decoded }

end Reception

namespace VideoStream
variable (s : VideoStream)

/-- Each frame in the list is a keyframe, or the one before it had been passed on before. -/
def Referenced : List ℕ → Prop
  | [] => True
  | i :: rest =>
      ((s.frame i).isKeyframe = true ∨ ∃ j ∈ rest, i = j + 1) ∧ Referenced rest

/-- The packet lets its frame be put together. -/
def Completes (r : Reception) (a : StreamArrival s) : Prop :=
  (r.receiver.reassembler.entryWith a.packet).ready = true

/-- No frame has been begun and not ended. -/
def Between (next : ℕ) : Prop := ∃ i < next + 1, s.first i = next

/-- What a late packet may complete: while the receiver waits, no keyframe but one that
ends where it waits; else, with no frame begun, a keyframe or again a frame that was
decoded before. -/
def Harmless (r : Reception) (a : StreamArrival s) : Prop :=
  if r.receiver.continuity.waitForKeyframe = true then
    (s.frame a.frame).isKeyframe = true → s.first (a.frame + 1) = r.next
  else s.Between r.next ∧ ((s.frame a.frame).isKeyframe = true ∨ a.frame ∈ r.decoded)

/-- The first packet is the first of a keyframe, none is 10000 or more ahead of the
expected one, the frames received differ in their timestamps, and a packet that comes
late completes a frame only where this does no harm. -/
structure InTurn (r : Reception) (a : StreamArrival s) : Prop where
  first : r.next = 0 → a.fragment = 0 ∧ (s.frame a.frame).isKeyframe = true
  near : r.next ≠ 0 → a.position < r.next + 10000 ∧ r.next ≤ a.position + (2 ^ 32 - 10000)
  own : ∀ i ∈ r.arrived, (s.frame i).timestampMs = a.timestamp → i = a.frame
  late : a.position < r.next → s.Completes r a → s.Harmless r a

instance (r : Reception) (a : StreamArrival s) : Decidable (s.Completes r a) := by
  unfold Completes
  infer_instance

instance (next : ℕ) : Decidable (s.Between next) := by
  unfold Between
  infer_instance

instance (r : Reception) (a : StreamArrival s) : Decidable (s.Harmless r a) := by
  unfold Harmless
  infer_instance

instance (r : Reception) (a : StreamArrival s) : Decidable (s.InTurn r a) :=
  have : Decidable (∀ i ∈ r.arrived, (s.frame i).timestampMs = a.timestamp → i = a.frame) :=
    List.decidableBAll _ _
  decidable_of_iff
    ((r.next = 0 → a.fragment = 0 ∧ (s.frame a.frame).isKeyframe = true) ∧
      (r.next ≠ 0 → a.position < r.next + 10000 ∧ r.next ≤ a.position + (2 ^ 32 - 10000)) ∧
      (∀ i ∈ r.arrived, (s.frame i).timestampMs = a.timestamp → i = a.frame) ∧
      (a.position < r.next → s.Completes r a → s.Harmless r a))
    ⟨fun ⟨h₁, h₂, h₃, h₄⟩ => ⟨h₁, h₂, h₃, h₄⟩, fun ⟨h₁, h₂, h₃, h₄⟩ => ⟨h₁, h₂, h₃, h₄⟩⟩

instance Referenced.decidable : (decoded : List ℕ) → Decidable (s.Referenced decoded)
  | [] => isTrue trivial
  | i :: rest =>
      have := Referenced.decidable rest
      have : Decidable (∃ j ∈ rest, i = j + 1) := List.decidableBEx _ _
      inferInstanceAs (Decidable
        (((s.frame i).isKeyframe = true ∨ ∃ j ∈ rest, i = j + 1) ∧ s.Referenced rest))

end VideoStream

/-! ## What a packet does -/

theorem sub_ahead (base : UInt32) (n k : ℕ) :
    base + UInt32.ofNat (n + k) - (base + UInt32.ofNat n) = UInt32.ofNat k := by
  rw [UInt32.sub_eq_iff_eq_add, UInt32.ofNat_add]
  ac_rfl

theorem sub_behind (base : UInt32) {p k : ℕ} (hk : k ≤ 2 ^ 32) :
    base + UInt32.ofNat p - (base + UInt32.ofNat (p + k)) = UInt32.ofNat (2 ^ 32 - k) := by
  have hround : UInt32.ofNat (2 ^ 32 - k) + UInt32.ofNat (p + k) = UInt32.ofNat p := by
    rw [← UInt32.ofNat_add, show 2 ^ 32 - k + (p + k) = p + 2 ^ 32 by omega]
    apply UInt32.toNat_inj.mp
    rw [UInt32.toNat_ofNat', UInt32.toNat_ofNat', Nat.add_mod_right]
  rw [UInt32.sub_eq_iff_eq_add, ← hround]
  ac_rfl

namespace VideoContinuity
variable {c : VideoContinuity} {base : UInt32} {next p : ℕ}

theorem observePacket_first (h : c.expectedSeq = none) (seq : UInt32) :
    (c.observePacket seq).1.expectedSeq = some (seq + 1) ∧
      (c.observePacket seq).1.waitForKeyframe = c.waitForKeyframe := by
  unfold observePacket
  rw [h]
  exact ⟨rfl, rfl⟩

/-- From the expected number on, and less than 10000 ahead. -/
theorem observePacket_onward (h : c.expectedSeq = some (base + UInt32.ofNat next))
    (hle : next ≤ p) (hlt : p < next + 10000) :
    (c.observePacket (base + UInt32.ofNat p)).1.expectedSeq = some (base + UInt32.ofNat (p + 1)) ∧
      (c.observePacket (base + UInt32.ofNat p)).1.waitForKeyframe =
        (c.waitForKeyframe || decide (next < p)) := by
  obtain ⟨k, rfl⟩ := Nat.exists_eq_add_of_le hle
  have hk : k % 2 ^ 32 = k := Nat.mod_eq_of_lt (by omega)
  have hnear : ¬ 10000 ≤ UInt32.ofNat k := by
    rw [UInt32.le_iff_toNat_le, UInt32.toNat_ofNat', hk]
    exact not_le.mpr (by simpa using hlt)
  have hgap : 0 < UInt32.ofNat k ↔ next < next + k := by
    rw [UInt32.lt_iff_toNat_lt, UInt32.toNat_ofNat', hk]
    exact ⟨fun h0 => by simpa using h0, fun h0 => by simpa using h0⟩
  have hsucc : base + UInt32.ofNat (next + k) + 1 = base + UInt32.ofNat (next + k + 1) := by
    rw [UInt32.ofNat_add (next + k) 1, UInt32.add_assoc]
    rfl
  unfold observePacket
  rw [h]
  dsimp only
  rw [sub_ahead, if_neg hnear, hsucc]
  split
  · rename_i hpos
    exact ⟨rfl, by rw [decide_eq_true (hgap.mp hpos), Bool.or_true]⟩
  · rename_i hzero
    exact ⟨rfl, by rw [decide_eq_false fun h0 => hzero (hgap.mpr h0), Bool.or_false]⟩

theorem observePacket_late (h : c.expectedSeq = some (base + UInt32.ofNat next))
    (hlt : p < next) (hle : next ≤ p + (2 ^ 32 - 10000)) :
    c.observePacket (base + UInt32.ofNat p) = (c, none) := by
  obtain ⟨k, rfl⟩ := Nat.exists_eq_add_of_lt hlt
  have hfar : 10000 ≤ UInt32.ofNat (2 ^ 32 - (k + 1)) := by
    rw [UInt32.le_iff_toNat_le, UInt32.toNat_ofNat']
    change 10000 ≤ (2 ^ 32 - (k + 1)) % 2 ^ 32
    omega
  unfold observePacket
  rw [h]
  dsimp only
  rw [Nat.add_assoc, sub_behind base (by omega), if_pos hfar]

theorem shouldDecode_spec (c : VideoContinuity) (isKeyframe : Bool) :
    ∃ c' decode, c.shouldDecode isKeyframe = (c', decode) ∧ c'.expectedSeq = c.expectedSeq ∧
      ((decode = false ∧ c'.waitForKeyframe = c.waitForKeyframe ∧
          c.waitForKeyframe = true ∧ isKeyframe = false) ∨
        (decode = true ∧ c'.waitForKeyframe = false ∧
          (isKeyframe = true ∨ c.waitForKeyframe = false))) := by
  unfold shouldDecode
  cases isKeyframe with
  | true => exact ⟨_, _, rfl, rfl, Or.inr ⟨rfl, rfl, Or.inl rfl⟩⟩
  | false =>
      rw [if_neg Bool.false_ne_true]
      cases hwait : c.waitForKeyframe with
      | true => exact ⟨_, _, rfl, rfl, Or.inl ⟨rfl, rfl, rfl, rfl⟩⟩
      | false => exact ⟨_, _, rfl, rfl, Or.inr ⟨rfl, hwait, Or.inr rfl⟩⟩

end VideoContinuity

namespace VideoReceiver

/-- An indication leaves the number and the wait as they are. -/
theorem observe_spec (c : VideoContinuity) (now : ℕ) (pkt : MediaPacket) :
    (observe c now pkt).1.expectedSeq = (c.observePacket pkt.header.seq).1.expectedSeq ∧
      (observe c now pkt).1.waitForKeyframe = (c.observePacket pkt.header.seq).1.waitForKeyframe ∧
      (observe c now pkt).2.any Reception.passes = false := by
  unfold observe
  cases c.observePacket pkt.header.seq with
  | mk c' gap =>
      cases gap with
      | none => exact ⟨rfl, rfl, rfl⟩
      | some gap =>
          dsimp only [VideoContinuity.shouldSendPli]
          split
          · exact ⟨rfl, rfl, rfl⟩
          · exact ⟨rfl, rfl, rfl⟩

end VideoReceiver

namespace Reception
variable {s : VideoStream} (r : Reception) (a : StreamArrival s)

/-- The continuity behind the look at the number of the packet. -/
def observed : VideoContinuity := (VideoReceiver.observe r.receiver.continuity a.now a.packet).1

def pending : Table UInt32 PendingFrame := r.receiver.reassembler.pending

theorem step_incomplete (h : ¬ s.Completes r a) :
    (r.step a).receiver.continuity = r.observed a ∧
      (r.step a).pending =
        r.pending.insert a.timestamp (r.receiver.reassembler.entryWith a.packet) ∧
      (r.step a).decoded = r.decoded := by
  have hpush : r.receiver.reassembler.push a.packet =
      (⟨r.pending.insert a.timestamp (r.receiver.reassembler.entryWith a.packet)⟩, none) := by
    rw [VideoReassembler.push, if_neg (show ¬ _ = true from h), a.packet_timestamp]
    rfl
  have hactions := (VideoReceiver.observe_spec r.receiver.continuity a.now a.packet).2.2
  unfold step pending observed VideoReceiver.recvMedia
  rw [if_pos a.packet_mediaType, hpush]
  dsimp only
  rw [hactions]
  exact ⟨rfl, rfl, rfl⟩

/-- What is left in the table was there before, for another timestamp. -/
def Shrinks (before after : Table UInt32 PendingFrame) (ts : UInt32) : Prop :=
  ∀ t entry, after.lookup t = some entry → t ≠ ts ∧ before.lookup t = some entry

theorem shrinks_erase (t : Table UInt32 PendingFrame) (ts : UInt32) (entry : PendingFrame) :
    Shrinks t ((t.insert ts entry).erase ts) ts := by
  intro k e hlookup
  rw [Table.lookup_erase] at hlookup
  split at hlookup
  · cases hlookup
  · rename_i hne
    rw [Table.lookup_insert_ne hne] at hlookup
    exact ⟨hne, hlookup⟩

theorem shrinks_evict (t : Table UInt32 PendingFrame) (ts now age : UInt32)
    (entry : PendingFrame) :
    Shrinks t
      (VideoReassembler.evictStale ⟨(t.insert ts entry).erase ts⟩ now age).pending ts :=
  fun k e hlookup => shrinks_erase t ts entry k e (Table.lookup_retain_eq_some.mp hlookup).1

/-- The frame is passed on, or it is not: then the receiver waits for a keyframe and
it is none, or its pieces do not fit together. -/
theorem step_complete (h : s.Completes r a) :
    Shrinks r.pending (r.step a).pending a.timestamp ∧
      (r.step a).receiver.continuity.expectedSeq = (r.observed a).expectedSeq ∧
      (((r.step a).receiver.continuity.waitForKeyframe = (r.observed a).waitForKeyframe ∧
          (r.step a).decoded = r.decoded ∧
          ((r.receiver.reassembler.entryWith a.packet).assemble.isSome →
            (r.observed a).waitForKeyframe = true ∧
              (r.receiver.reassembler.entryWith a.packet).isKeyframe = false)) ∨
        ((r.step a).receiver.continuity.waitForKeyframe = false ∧
          (r.step a).decoded = a.frame :: r.decoded ∧
          ((r.receiver.reassembler.entryWith a.packet).isKeyframe = true ∨
            (r.observed a).waitForKeyframe = false))) := by
  have hpush : r.receiver.reassembler.push a.packet =
      (⟨(r.pending.insert a.timestamp (r.receiver.reassembler.entryWith a.packet)).erase a.timestamp⟩,
        (r.receiver.reassembler.entryWith a.packet).assemble) := by
    rw [VideoReassembler.push, if_pos (show _ = true from h), a.packet_timestamp]
    rfl
  have hactions := (VideoReceiver.observe_spec r.receiver.continuity a.now a.packet).2.2
  unfold step pending observed VideoReceiver.recvMedia
  rw [if_pos a.packet_mediaType, hpush]
  cases hassemble : (r.receiver.reassembler.entryWith a.packet).assemble with
  | none =>
      dsimp only
      rw [hactions]
      exact ⟨shrinks_erase _ _ _, rfl, Or.inl ⟨rfl, rfl, fun hsome => by cases hsome⟩⟩
  | some frame =>
      obtain ⟨c, decode, hdecode, hexpected, houtcome⟩ :=
        VideoContinuity.shouldDecode_spec (VideoReceiver.observe r.receiver.continuity a.now a.packet).1
          frame.isKeyframe
      dsimp only [VideoReceiver.complete]
      rw [hdecode]
      dsimp only
      rw [List.any_append, hactions]
      rw [PendingFrame.assemble_isKeyframe hassemble] at houtcome
      refine ⟨shrinks_evict _ _ _ _ _, hexpected, ?_⟩
      rcases houtcome with ⟨rfl, hwait, hreason⟩ | ⟨rfl, hwait, hreason⟩
      · exact Or.inl ⟨hwait, rfl, fun _ => hreason⟩
      · exact Or.inr ⟨hwait, rfl, hreason⟩

end Reception

/-! ## The invariant -/

namespace VideoStream
variable (s : VideoStream)

/-- Place `p` is in a frame whose reference was decoded, and what comes before it in
that frame is kept. -/
def Linked (r : Reception) (p : ℕ) : Prop :=
  ∃ c, s.first c ≤ p ∧ p < s.first (c + 1) ∧
    ((s.frame c).isKeyframe = true ∨ ∃ j ∈ r.decoded, c = j + 1) ∧
    ∀ j < p - s.first c, ∃ entry, r.pending.lookup (s.frame c).timestampMs = some entry ∧ entry.Has j

/-- The entries are of frames of the stream. -/
def Entries (r : Reception) : Prop :=
  ∀ ts entry, r.pending.lookup ts = some entry → ∃ i ∈ r.arrived, (s.frame i).timestampMs = ts ∧
    entry.isKeyframe = (s.frame i).isKeyframe ∧
    (entry.sawFrameEnd = true → s.first (i + 1) ≤ r.next)

/-- The receiver waits for a keyframe unless it is linked to what was decoded. -/
structure Sound (r : Reception) : Prop where
  begun : r.next = 0 → r.receiver.continuity.expectedSeq = none ∧
    r.receiver.continuity.waitForKeyframe = false
  expected : r.next ≠ 0 →
    r.receiver.continuity.expectedSeq = some (s.start + UInt32.ofNat r.next)
  entries : s.Entries r
  referenced : s.Referenced r.decoded
  linked : r.next ≠ 0 → r.receiver.continuity.waitForKeyframe = false → s.Linked r r.next

theorem sound_start : s.Sound Reception.start where
  begun _ := ⟨rfl, rfl⟩
  expected h := absurd rfl h
  entries ts entry hlookup := by
    rw [show Reception.start.pending = ∅ from rfl, AList.lookup_empty] at hlookup
    cases hlookup
  referenced := trivial
  linked h := absurd rfl h

variable {s} {r : Reception} {a : StreamArrival s}

theorem Referenced.of_mem {decoded : List ℕ} (h : s.Referenced decoded) {i : ℕ} (hi : i ∈ decoded) :
    (s.frame i).isKeyframe = true ∨ ∃ j ∈ decoded, i = j + 1 := by
  induction decoded with
  | nil => cases hi
  | cons k rest ih =>
      have hwiden : (∃ j ∈ rest, i = j + 1) → ∃ j ∈ k :: rest, i = j + 1 := by
        rintro ⟨j, hj, heq⟩
        exact ⟨j, List.mem_cons_of_mem _ hj, heq⟩
      rcases List.mem_cons.mp hi with rfl | hmem
      · exact h.1.imp_right hwiden
      · exact (ih h.2 hmem).imp_right hwiden

/-- The entry of the frame of the packet, with the packet. -/
structure EntryOf (r : Reception) (a : StreamArrival s) (entry : PendingFrame) : Prop where
  isKeyframe : entry.isKeyframe = (s.frame a.frame).isKeyframe
  ended : entry.sawFrameEnd = true → s.first (a.frame + 1) ≤ max r.next (a.position + 1)
  last : a.position + 1 = s.first (a.frame + 1) → entry.sawFrameEnd = true
  total : entry.totalFragments = UInt8.ofNat (s.packets a.frame).length
  codec : entry.codecId.isSome
  own : entry.Has a.fragment
  kept : ∀ old j, r.pending.lookup a.timestamp = some old → old.Has j → entry.Has j

theorem entryOf (hentries : s.Entries r) (hturn : s.InTurn r a) :
    EntryOf r a (r.receiver.reassembler.entryWith a.packet) := by
  have hcount : 0 < fragmentCount a.packet.header := by
    have hlength := s.length_packets a.frame
    rw [a.packet_fragmentCount, UInt8.lt_iff_toNat_lt, UInt8.toNat_ofNat']
    change 0 < (s.packets a.frame).length % 256
    omega
  have hlast := a.packet_isFrameEnd
  have hpos := a.position_lt
  unfold VideoReassembler.entryWith
  rw [a.packet_timestamp]
  cases hold : r.receiver.reassembler.pending.lookup a.timestamp with
  | none =>
      dsimp only [Option.getD_none]
      constructor
      · exact a.packet_isKeyframe
      · intro hend
        have heq := hlast.mp hend
        omega
      · intro heq
        exact hlast.mpr heq
      · exact (if_pos hcount).trans a.packet_fragmentCount
      · rfl
      · exact PendingFrame.has_accept_self _ a.packet_fragmentIndex
      · intro old j hlookup
        rw [Reception.pending, hold] at hlookup
        cases hlookup
  | some old =>
      obtain ⟨i, hi, hts, hkey, hend⟩ := hentries _ _ hold
      obtain rfl := hturn.own i hi hts
      dsimp only [Option.getD_some]
      constructor
      · dsimp only [PendingFrame.accept]
        rw [hkey, a.packet_isKeyframe, Bool.or_self]
      · intro hsaw
        rcases (Bool.or_eq_true _ _).mp hsaw with hsaw | hsaw
        · exact (hend hsaw).trans (le_max_left _ _)
        · have heq := hlast.mp hsaw
          omega
      · intro heq
        exact (Bool.or_eq_true _ _).mpr (Or.inr (hlast.mpr heq))
      · exact (if_pos hcount).trans a.packet_fragmentCount
      · rfl
      · exact PendingFrame.has_accept_self _ a.packet_fragmentIndex
      · intro old' j hlookup hhas
        rw [Reception.pending, hold] at hlookup
        obtain rfl := Option.some.inj hlookup
        exact hhas.accept a.packet

theorem entries_step (hentries : s.Entries r) (hturn : s.InTurn r a) : s.Entries (r.step a) := by
  have hentry := entryOf hentries hturn
  have hkept : ∀ t entry, r.pending.lookup t = some entry →
      ∃ i ∈ (r.step a).arrived, (s.frame i).timestampMs = t ∧
        entry.isKeyframe = (s.frame i).isKeyframe ∧
        (entry.sawFrameEnd = true → s.first (i + 1) ≤ (r.step a).next) := by
    intro t entry hlookup
    obtain ⟨i, hi, hts, hkey, hend⟩ := hentries t entry hlookup
    exact ⟨i, List.mem_cons_of_mem _ hi, hts, hkey, fun hsaw => (hend hsaw).trans (le_max_left _ _)⟩
  intro t entry hlookup
  by_cases hcomplete : s.Completes r a
  · obtain ⟨hshrinks, -⟩ := r.step_complete a hcomplete
    exact hkept t entry (hshrinks t entry hlookup).2
  · rw [(r.step_incomplete a hcomplete).2.1, Table.lookup_insert] at hlookup
    split at hlookup
    · rename_i heq
      obtain rfl := Option.some.inj hlookup
      exact ⟨a.frame, List.mem_cons_self, heq.symm, hentry.isKeyframe, hentry.ended⟩
    · exact hkept t entry hlookup

theorem fragment_eq (a : StreamArrival s) : a.fragment = a.position - s.first a.frame := by
  rw [StreamArrival.position]
  omega

/-- Ready, with all that comes before its last packet, the frame is put together. -/
theorem assemble_isSome (hentry : EntryOf r a (r.receiver.reassembler.entryWith a.packet))
    (hlast : a.position + 1 = s.first (a.frame + 1))
    (hhas : ∀ j < a.fragment, (r.receiver.reassembler.entryWith a.packet).Has j) :
    s.Completes r a ∧ (r.receiver.reassembler.entryWith a.packet).assemble.isSome := by
  have hlength := s.length_packets a.frame
  have hall : ∀ j < (s.packets a.frame).length,
      (r.receiver.reassembler.entryWith a.packet).Has j := by
    intro j hj
    rw [first, StreamArrival.position] at hlast
    rcases Nat.lt_or_ge j a.fragment with hlt | hge
    · exact hhas j hlt
    · obtain rfl : j = a.fragment := by omega
      exact hentry.own
  exact ⟨PendingFrame.ready_of_has hlength.1 hlength.2 (hentry.last hlast) hentry.total hall,
    PendingFrame.assemble_of_has hlength.2 hentry.codec hentry.total hall⟩

/-- Behind the last packet of a frame that was decoded. -/
theorem linked_behind {p : ℕ} {decoded : List ℕ} (hp : p = s.first (a.frame + 1))
    (hdecoded : r.decoded = a.frame :: decoded) : s.Linked r p := by
  refine ⟨a.frame + 1, hp.ge, hp ▸ s.first_lt_first_succ _, Or.inr ⟨a.frame, ?_, rfl⟩, fun j hj => ?_⟩
  · rw [hdecoded]
    exact List.mem_cons_self
  · omega

/-- A packet that is not behind the expected one, at a place that is linked to what
was decoded unless the receiver waits. -/
theorem linked_onward (hentries : s.Entries r) (hturn : s.InTurn r a) (hle : r.next ≤ a.position)
    (hlinked : (r.observed a).waitForKeyframe = false → s.Linked r a.position)
    (hreferenced : s.Referenced r.decoded) :
    s.Referenced (r.step a).decoded ∧
      ((r.step a).receiver.continuity.waitForKeyframe = false →
        s.Linked (r.step a) (a.position + 1)) := by
  have hentry := entryOf hentries hturn
  have hlt := a.position_lt
  have hhas : s.Linked r a.position →
      ∀ j < a.fragment, (r.receiver.reassembler.entryWith a.packet).Has j := by
    rintro ⟨c, hc, hc', -, hkept⟩ j hj
    obtain rfl := s.frame_unique hc hc' (Nat.le_add_right _ _) hlt
    obtain ⟨old, hlookup, hold⟩ := hkept j (by rwa [← fragment_eq a])
    exact hentry.kept old j hlookup hold
  by_cases hcomplete : s.Completes r a
  · obtain ⟨-, -, houtcome⟩ := r.step_complete a hcomplete
    have hended := hentry.ended (by
      have hready : (_ && _ && _) = true := hcomplete
      rw [Bool.and_eq_true, Bool.and_eq_true] at hready
      exact hready.1.1)
    have hend : a.position + 1 = s.first (a.frame + 1) := by omega
    rcases houtcome with ⟨hwait, hdecoded, hreason⟩ | ⟨-, hdecoded, hreason⟩
    · rw [hdecoded, hwait]
      refine ⟨hreferenced, fun hgo => ?_⟩
      obtain ⟨-, hsome⟩ := assemble_isSome hentry hend (hhas (hlinked hgo))
      rw [(hreason hsome).1] at hgo
      cases hgo
    · refine ⟨?_, fun _ => linked_behind hend hdecoded⟩
      rw [hdecoded]
      refine ⟨?_, hreferenced⟩
      rcases hreason with hkey | hgo
      · exact Or.inl (hentry.isKeyframe ▸ hkey)
      · obtain ⟨c, hc, hc', hreference, -⟩ := hlinked hgo
        obtain rfl := s.frame_unique hc hc' (Nat.le_add_right _ _) hlt
        exact hreference
  · obtain ⟨hcontinuity, hpending, hdecoded⟩ := r.step_incomplete a hcomplete
    rw [hdecoded, hcontinuity]
    refine ⟨hreferenced, fun hgo => ?_⟩
    have hbefore := hhas (hlinked hgo)
    have hnotLast : a.position + 1 ≠ s.first (a.frame + 1) := fun hend =>
      hcomplete (assemble_isSome hentry hend hbefore).1
    obtain ⟨c, hc, hc', hreference, -⟩ := hlinked hgo
    obtain rfl := s.frame_unique hc hc' (Nat.le_add_right _ _) hlt
    refine ⟨a.frame, by omega, by omega, hdecoded ▸ hreference, fun j hj => ?_⟩
    refine ⟨r.receiver.reassembler.entryWith a.packet, ?_, ?_⟩
    · rw [hpending]
      exact Table.lookup_insert_self _ _ _
    · have hfragment := fragment_eq a
      rcases Nat.lt_or_ge j a.fragment with hj' | hj'
      · exact hbefore j hj'
      · obtain rfl : j = a.fragment := by omega
        exact hentry.own

/-- A packet behind the expected one. -/
theorem linked_late (hsound : s.Sound r) (hturn : s.InTurn r a) (hlt : a.position < r.next)
    (hobserved : r.observed a = r.receiver.continuity) :
    s.Referenced (r.step a).decoded ∧
      ((r.step a).receiver.continuity.waitForKeyframe = false → s.Linked (r.step a) r.next) := by
  have hentry := entryOf hsound.entries hturn
  have hnext : r.next ≠ 0 := by omega
  by_cases hcomplete : s.Completes r a
  · obtain ⟨-, -, houtcome⟩ := r.step_complete a hcomplete
    rw [hobserved] at houtcome
    cases hwaiting : r.receiver.continuity.waitForKeyframe with
    | true =>
        rw [hwaiting] at houtcome
        rcases houtcome with ⟨hwait, hdecoded, -⟩ | ⟨-, hdecoded, hreason⟩
        · rw [hdecoded, hwait]
          exact ⟨hsound.referenced, fun hgo => by cases hgo⟩
        · have hkey : (s.frame a.frame).isKeyframe = true := by
            rcases hreason with hkey | hgo
            · exact hentry.isKeyframe ▸ hkey
            · cases hgo
          have hharmless := hturn.late hlt hcomplete
          rw [VideoStream.Harmless, if_pos hwaiting] at hharmless
          have hend := hharmless hkey
          refine ⟨?_, fun _ => linked_behind hend.symm hdecoded⟩
          rw [hdecoded]
          exact ⟨Or.inl hkey, hsound.referenced⟩
    | false =>
        have hharmless := hturn.late hlt hcomplete
        rw [VideoStream.Harmless, if_neg (by rw [hwaiting]; exact Bool.false_ne_true)] at hharmless
        obtain ⟨⟨i, -, hi⟩, hagain⟩ := hharmless
        obtain ⟨c, hc, hc', hreference, -⟩ := hsound.linked hnext hwaiting
        have hbegin := s.first_lt_first_succ i
        obtain rfl := s.frame_unique hc hc' hi.le (by omega)
        have hlinked : ∀ r' : Reception, (∀ j ∈ r.decoded, j ∈ r'.decoded) → s.Linked r' r.next := by
          intro r' hwider
          refine ⟨c, hc, hc', ?_, fun j hj => by omega⟩
          rcases hreference with hkey | ⟨j, hj, heq⟩
          · exact Or.inl hkey
          · exact Or.inr ⟨j, hwider j hj, heq⟩
        rcases houtcome with ⟨-, hdecoded, -⟩ | ⟨-, hdecoded, -⟩
        · rw [hdecoded]
          exact ⟨hsound.referenced, fun _ => hlinked _ fun j hj => hdecoded ▸ hj⟩
        · refine ⟨?_, fun _ => hlinked _ fun j hj => hdecoded ▸ List.mem_cons_of_mem _ hj⟩
          rw [hdecoded]
          refine ⟨?_, hsound.referenced⟩
          rcases hagain with hkey | hmem
          · exact Or.inl hkey
          · exact hsound.referenced.of_mem hmem
  · obtain ⟨hcontinuity, hpending, hdecoded⟩ := r.step_incomplete a hcomplete
    rw [hdecoded, hcontinuity, hobserved]
    refine ⟨hsound.referenced, fun hgo => ?_⟩
    obtain ⟨c, hc, hc', hreference, hkept⟩ := hsound.linked hnext hgo
    refine ⟨c, hc, hc', hdecoded ▸ hreference, fun j hj => ?_⟩
    obtain ⟨old, hlookup, hhas⟩ := hkept j hj
    rw [hpending, Table.lookup_insert]
    split
    · rename_i heq
      exact ⟨_, rfl, hentry.kept old j (heq ▸ hlookup) hhas⟩
    · exact ⟨old, hlookup, hhas⟩

theorem step_expected :
    (r.step a).receiver.continuity.expectedSeq = (r.observed a).expectedSeq := by
  by_cases hcomplete : s.Completes r a
  · exact (r.step_complete a hcomplete).2.1
  · rw [(r.step_incomplete a hcomplete).1]

theorem sound_step (hsound : s.Sound r) (hturn : s.InTurn r a) : s.Sound (r.step a) := by
  have hnext : (r.step a).next = max r.next (a.position + 1) := rfl
  have hne : (r.step a).next ≠ 0 := by omega
  obtain ⟨hexpected, hwait, -⟩ := VideoReceiver.observe_spec r.receiver.continuity a.now a.packet
  rw [a.packet_seq] at hexpected hwait
  -- what the packet makes the receiver expect, and what it decodes
  suffices hobserved :
      (r.observed a).expectedSeq = some (s.start + UInt32.ofNat (r.step a).next) ∧
        s.Referenced (r.step a).decoded ∧
        ((r.step a).receiver.continuity.waitForKeyframe = false →
          s.Linked (r.step a) (r.step a).next) by
    exact ⟨fun h0 => absurd h0 hne, fun _ => step_expected.trans hobserved.1,
      entries_step hsound.entries hturn, hobserved.2.1, fun _ => hobserved.2.2⟩
  rcases Nat.lt_or_ge a.position r.next with hlt | hle
  · have hnear := hturn.near (by omega)
    have hsame := VideoContinuity.observePacket_late (hsound.expected (by omega)) hlt hnear.2
    have hcontinuity : r.observed a = r.receiver.continuity := by
      unfold Reception.observed VideoReceiver.observe
      rw [a.packet_seq]
      rw [hsame]
    rw [hnext, max_eq_left (by omega)]
    refine ⟨?_, linked_late hsound hturn hlt hcontinuity⟩
    rw [hcontinuity]
    exact hsound.expected (by omega)
  · rw [hnext, max_eq_right (by omega)]
    by_cases h0 : r.next = 0
    · obtain ⟨hfragment, hkey⟩ := hturn.first h0
      obtain ⟨hnone, hgo⟩ := hsound.begun h0
      have hfirst := VideoContinuity.observePacket_first hnone (s.start + UInt32.ofNat a.position)
      refine ⟨?_, linked_onward hsound.entries hturn hle (fun _ => ?_) hsound.referenced⟩
      · rw [Reception.observed, hexpected, hfirst.1, UInt32.add_assoc, UInt32.ofNat_add]
        rfl
      · refine ⟨a.frame, Nat.le_add_right _ _, a.position_lt, Or.inl hkey, fun j hj => ?_⟩
        rw [← fragment_eq a, hfragment] at hj
        exact absurd hj (Nat.not_lt_zero j)
    · have honward := VideoContinuity.observePacket_onward (hsound.expected h0) hle (hturn.near h0).1
      refine ⟨?_, linked_onward hsound.entries hturn hle (fun hgo => ?_) hsound.referenced⟩
      · rw [Reception.observed, hexpected, honward.1]
      · rw [Reception.observed, hwait, honward.2, Bool.or_eq_false_iff, decide_eq_false_iff_not] at hgo
        obtain ⟨hgo, hnot⟩ := hgo
        have heq : a.position = r.next := by omega
        rw [heq]
        exact hsound.linked h0 hgo

/-- If every packet comes in turn, no frame is decoded without the one before it. -/
theorem references_decoded (s : VideoStream) (arrivals : List (StreamArrival s))
    (hturns : EachStep Reception.step s.InTurn Reception.start arrivals) :
    Throughout Reception.step (fun r => s.Referenced r.decoded) Reception.start arrivals :=
  (throughout_of_eachStep (fun _ _ => sound_step) s.sound_start hturns).mono
    fun _ hsound => hsound.referenced

/-- A keyframe every three frames, each in one packet. -/
def sampleStream : VideoStream where
  codecId := .h264Baseline
  start := 0
  frame i := ⟨[1], List.cons_ne_nil _ _, i % 3 == 0, UInt32.ofNat (33 * i), 640, 480⟩
  keyframeFirst := rfl

def sampleArrivals (frames : List ℕ) : List (StreamArrival sampleStream) :=
  frames.map fun i => ⟨0, i, 0, (sampleStream.length_packets i).1⟩

/-- One frame twice, two lost, one dropped. -/
theorem references_decoded_sample :
    EachStep Reception.step sampleStream.InTurn Reception.start
        (sampleArrivals [0, 1, 1, 4, 6, 7]) ∧
      Throughout Reception.step (fun r => sampleStream.Referenced r.decoded) Reception.start
        (sampleArrivals [0, 1, 1, 4, 6, 7]) := by
  have hturns : EachStep Reception.step sampleStream.InTurn Reception.start
      (sampleArrivals [0, 1, 1, 4, 6, 7]) := by decide +kernel
  exact ⟨hturns, sampleStream.references_decoded _ hturns⟩

/-- Joined behind a keyframe; and with a keyframe behind the frame after it, one lost before. -/
theorem reference_missing :
    ¬ Throughout Reception.step (fun r => sampleStream.Referenced r.decoded) Reception.start
        (sampleArrivals [1]) ∧
      ¬ Throughout Reception.step (fun r => sampleStream.Referenced r.decoded) Reception.start
        (sampleArrivals [0, 1, 4, 3, 5]) := by
  constructor <;> decide +kernel

end VideoStream
end Wzp.Desktop
