import Mathlib.Data.List.Perm.Subperm
import Wzp.Lib.Table
import Wzp.Proto.Profile

/-!
# Video frames in packets

A frame is cut into packets of one timestamp, each with its index and the number
of all. The reassembler keeps what has come of the frames that are not complete.
-/
namespace Wzp.Video
open Bytes Proto

def videoMaxPayload : ℕ := 1168
/-- `WZV1`. -/
def videoFrameMetaMagic : Buf := [0x57, 0x5A, 0x56, 0x31]
def videoFrameMetaLen : ℕ := 8

structure VideoFrameMeta where
  width : UInt16
  height : UInt16
  deriving DecidableEq, Repr

structure ReassembledVideoFrame where
  codecId : CodecId
  isKeyframe : Bool
  width : Option UInt16
  height : Option UInt16
  data : Buf
  deriving DecidableEq, Repr

/-! ## Sending -/

def chunks (size : ℕ) (data : Buf) : List Buf :=
  (List.range ((data.length + size - 1) / size)).map fun i => (data.drop (size * i)).take size

theorem flatten_take_chunks (size n : ℕ) (data : Buf) :
    ((List.range n).map fun i => (data.drop (size * i)).take size).flatten =
      data.take (size * n) := by
  induction n with
  | zero => rw [Nat.mul_zero, List.take_zero]; rfl
  | succ n ih =>
      rw [List.range_succ, List.map_append, List.flatten_append, ih, Nat.mul_succ, List.take_add]
      exact congrArg (_ ++ ·) (List.append_nil _)

theorem flatten_chunks {size : ℕ} (hsize : 0 < size) (data : Buf) :
    (chunks size data).flatten = data := by
  rw [chunks, flatten_take_chunks]
  refine List.take_of_length_le ?_
  have hdiv := Nat.div_add_mod (data.length + size - 1) size
  have hmod := Nat.mod_lt (data.length + size - 1) hsize
  omega

def framed (frame : Buf) (width height : UInt32) : Buf :=
  videoFrameMetaMagic ++ putU16 (min width.toNat 65535).toUInt16 ++
    putU16 (min height.toNat 65535).toUInt16 ++ frame

def fragmentFlags (isKeyframe isLast : Bool) : UInt8 :=
  (if isKeyframe then MediaHeader.flagKeyframe else 0) |||
    (if isLast then MediaHeader.flagFrameEnd else 0)

def fragmentPacket (codecId : CodecId) (isKeyframe : Bool) (seq timestampMs : UInt32) (total i : ℕ)
    (chunk : Buf) : MediaPacket where
  header :=
    { version := MediaHeader.versionByte
      flags := fragmentFlags isKeyframe (i + 1 == total)
      mediaType := .video
      codecId
      streamId := 0
      fecRatio := 0
      seq := seq + UInt32.ofNat i
      timestamp := timestampMs
      fecBlock := UInt16.ofNat i <<< 8 ||| UInt16.ofNat total }
  payload := chunk
  qualityReport := none

/-- The packets of a frame, and the number for the next one. What does not fit
into 255 of them is left out. -/
def packetizeVideoFrame (frame : Buf) (codecId : CodecId) (isKeyframe : Bool) (seq timestampMs : UInt32)
    (width height : UInt32) : List MediaPacket × UInt32 :=
  if frame.isEmpty then ([], seq)
  else
    let pieces := (chunks videoMaxPayload (framed frame width height)).take 255
    ((pieces.zipIdx).map fun (chunk, i) =>
      fragmentPacket codecId isKeyframe seq timestampMs pieces.length i chunk,
      seq + UInt32.ofNat pieces.length)

def fragmentIndex (h : MediaHeader) : UInt8 := (h.fecBlock >>> 8).toUInt8

def fragmentCount (h : MediaHeader) : UInt8 := (h.fecBlock &&& 0xFF).toUInt8

theorem toNat_fecBlock {i total : ℕ} (hi : i < 256) (htotal : total < 256) :
    (UInt16.ofNat i <<< 8 ||| UInt16.ofNat total).toNat = 256 * i + total := by
  have hi' : i % 2 ^ 16 = i := Nat.mod_eq_of_lt (by omega)
  have htotal' : total % 2 ^ 16 = total := Nat.mod_eq_of_lt (by omega)
  rw [UInt16.toNat_or, UInt16.toNat_shiftLeft, UInt16.toNat_ofNat', UInt16.toNat_ofNat', hi', htotal']
  change (i <<< 8 % 2 ^ 16) ||| total = 256 * i + total
  have hsmall : i <<< 8 < 2 ^ 16 := by rw [Nat.shiftLeft_eq]; omega
  rw [Nat.mod_eq_of_lt hsmall, ← Nat.shiftLeft_add_eq_or_of_lt (by omega), Nat.shiftLeft_eq]
  omega

section FragmentPacket
variable (codecId : CodecId) (isKeyframe : Bool) (seq timestampMs : UInt32) {total i : ℕ}
  (chunk : Buf)

theorem fragmentIndex_fragmentPacket (hi : i < 256) (htotal : total < 256) :
    fragmentIndex (fragmentPacket codecId isKeyframe seq timestampMs total i chunk).header =
      UInt8.ofNat i := by
  apply UInt8.toNat_inj.mp
  dsimp only [fragmentIndex, fragmentPacket]
  rw [UInt16.toNat_toUInt8, UInt16.toNat_shiftRight, toNat_fecBlock hi htotal, UInt8.toNat_ofNat']
  change (256 * i + total) >>> 8 % 256 = i % 256
  rw [Nat.shiftRight_eq_div_pow]
  omega

theorem fragmentCount_fragmentPacket (hi : i < 256) (htotal : total < 256) :
    fragmentCount (fragmentPacket codecId isKeyframe seq timestampMs total i chunk).header =
      UInt8.ofNat total := by
  apply UInt8.toNat_inj.mp
  dsimp only [fragmentCount, fragmentPacket]
  rw [UInt16.toNat_toUInt8, UInt16.toNat_and, toNat_fecBlock hi htotal, UInt8.toNat_ofNat']
  change ((256 * i + total) &&& 2 ^ 8 - 1) % 256 = total % 256
  rw [Nat.and_two_pow_sub_one_eq_mod]
  omega

theorem isKeyframe_fragmentPacket :
    (fragmentPacket codecId isKeyframe seq timestampMs total i chunk).header.isKeyframe =
      isKeyframe := by
  change (fragmentFlags isKeyframe (i + 1 == total) &&& _ != 0) = isKeyframe
  cases isKeyframe <;> cases i + 1 == total <;> rfl

theorem isFrameEnd_fragmentPacket :
    (fragmentPacket codecId isKeyframe seq timestampMs total i chunk).header.isFrameEnd =
      (i + 1 == total) := by
  change (fragmentFlags isKeyframe (i + 1 == total) &&& _ != 0) = (i + 1 == total)
  cases isKeyframe <;> cases i + 1 == total <;> rfl

end FragmentPacket

section Packetize
variable {frame : Buf} (codecId : CodecId) (isKeyframe : Bool) (seq timestampMs width height : UInt32)

/-- The number of packets of a frame: at least one, at most 255. -/
theorem packetize_spec (hframe : frame ≠ []) :
    ∃ pieces : List Buf, 0 < pieces.length ∧ pieces.length < 256 ∧
      packetizeVideoFrame frame codecId isKeyframe seq timestampMs width height =
        ((pieces.zipIdx).map fun (chunk, i) =>
          fragmentPacket codecId isKeyframe seq timestampMs pieces.length i chunk,
          seq + UInt32.ofNat pieces.length) := by
  refine ⟨(chunks videoMaxPayload (framed frame width height)).take 255, ?_, ?_, ?_⟩
  · have hlength : 1 ≤ (framed frame width height).length := by
      have hpos := List.length_pos_iff.mpr hframe
      unfold framed
      rw [List.length_append]
      omega
    rw [List.length_take, chunks, List.length_map, List.length_range, videoMaxPayload]
    omega
  · rw [List.length_take]
    omega
  · rw [packetizeVideoFrame, if_neg (by rw [List.isEmpty_iff]; exact hframe)]

end Packetize

/-! ## Receiving -/

structure PendingFrame where
  fragments : Table UInt8 Buf
  totalFragments : UInt8
  isKeyframe : Bool
  sawFrameEnd : Bool
  codecId : Option CodecId

namespace PendingFrame

def empty : PendingFrame := ⟨∅, 0, false, false, none⟩

def accept (entry : PendingFrame) (pkt : MediaPacket) : PendingFrame where
  fragments := entry.fragments.insert (fragmentIndex pkt.header) pkt.payload
  totalFragments :=
    if 0 < fragmentCount pkt.header then fragmentCount pkt.header else entry.totalFragments
  isKeyframe := entry.isKeyframe || pkt.header.isKeyframe
  sawFrameEnd := entry.sawFrameEnd || pkt.header.isFrameEnd
  codecId := some pkt.header.codecId

/-- The last fragment has come, and as many as there are. -/
def ready (entry : PendingFrame) : Bool :=
  entry.sawFrameEnd && entry.totalFragments != 0 &&
    entry.totalFragments.toNat ≤ entry.fragments.keys.length

def splitVideoFramePayload (frame : Buf) : Option VideoFrameMeta × Buf :=
  if frame.length < videoFrameMetaLen ∨ frame.take 4 ≠ videoFrameMetaMagic then (none, frame)
  else
    let width := (getU16 (frame.drop 4)).1
    let height := (getU16 (frame.drop 6)).1
    (some ⟨width, height⟩, frame.drop videoFrameMetaLen)

def assemble (entry : PendingFrame) : Option ReassembledVideoFrame := do
  let codecId ← entry.codecId
  let pieces ← (List.range entry.totalFragments.toNat).mapM fun i =>
    entry.fragments.lookup (UInt8.ofNat i)
  let (info, data) := splitVideoFramePayload pieces.flatten
  some ⟨codecId, entry.isKeyframe, info.map (·.width), info.map (·.height), data⟩

/-! ### What an entry holds -/

def Has (entry : PendingFrame) (i : ℕ) : Prop := (entry.fragments.lookup (UInt8.ofNat i)).isSome

theorem Has.accept {entry : PendingFrame} {i : ℕ} (h : entry.Has i) (pkt : MediaPacket) :
    (entry.accept pkt).Has i := by
  unfold Has PendingFrame.accept at *
  dsimp only
  rw [Table.lookup_insert]
  split
  · rfl
  · exact h

theorem has_accept_self {pkt : MediaPacket} {i : ℕ} (entry : PendingFrame)
    (hi : fragmentIndex pkt.header = UInt8.ofNat i) : (entry.accept pkt).Has i := by
  unfold Has PendingFrame.accept
  rw [hi, Table.lookup_insert_self]
  rfl

variable {entry : PendingFrame} {n : ℕ}

/-- The indices are different, so there are as many fragments. -/
theorem le_length_keys (hn : n ≤ 256) (hall : ∀ i < n, entry.Has i) :
    n ≤ entry.fragments.keys.length := by
  have hnodup : ((List.range n).map UInt8.ofNat).Nodup := by
    refine List.Nodup.map_on (fun i hi j hj hij => ?_) List.nodup_range
    have hi := List.mem_range.mp hi
    have hj := List.mem_range.mp hj
    have hnat := congrArg UInt8.toNat hij
    rw [UInt8.toNat_ofNat', UInt8.toNat_ofNat'] at hnat
    omega
  have hsubset : (List.range n).map UInt8.ofNat ⊆ entry.fragments.keys := by
    intro k hk
    obtain ⟨i, hi, rfl⟩ := List.mem_map.mp hk
    exact AList.lookup_isSome.mp (hall i (List.mem_range.mp hi))
  have hlength := (hnodup.subperm hsubset).length_le
  rwa [List.length_map, List.length_range] at hlength

theorem ready_of_has (hn : 0 < n) (hn' : n < 256) (hend : entry.sawFrameEnd = true)
    (htotal : entry.totalFragments = UInt8.ofNat n) (hall : ∀ i < n, entry.Has i) :
    entry.ready = true := by
  have hnat : entry.totalFragments.toNat = n := by
    rw [htotal, UInt8.toNat_ofNat']
    omega
  have hne : entry.totalFragments ≠ 0 := by
    intro h0
    rw [h0] at hnat
    exact Nat.ne_of_lt hn hnat
  have hlength := le_length_keys (by omega) hall
  rw [ready, hend, hnat, bne_iff_ne.mpr hne, Bool.true_and, Bool.true_and]
  exact decide_eq_true hlength

theorem assemble_of_has (hn' : n < 256) (hcodec : entry.codecId.isSome)
    (htotal : entry.totalFragments = UInt8.ofNat n) (hall : ∀ i < n, entry.Has i) :
    entry.assemble.isSome := by
  have hnat : entry.totalFragments.toNat = n := by
    rw [htotal, UInt8.toNat_ofNat']
    omega
  have hpieces : ∀ is : List ℕ, (∀ i ∈ is, entry.Has i) →
      ∃ pieces, is.mapM (fun i => entry.fragments.lookup (UInt8.ofNat i)) = some pieces := by
    intro is his
    induction is with
    | nil => exact ⟨[], rfl⟩
    | cons i is ih =>
        obtain ⟨piece, hpiece⟩ := Option.isSome_iff_exists.mp (his i List.mem_cons_self)
        obtain ⟨pieces, hrest⟩ := ih fun j hj => his j (List.mem_cons_of_mem _ hj)
        exact ⟨piece :: pieces, by rw [List.mapM_cons, hpiece, hrest]; rfl⟩
  obtain ⟨codecId, hcodec⟩ := Option.isSome_iff_exists.mp hcodec
  obtain ⟨pieces, hpieces⟩ := hpieces (List.range n) fun i hi => hall i (List.mem_range.mp hi)
  rw [assemble, hcodec, hnat, hpieces]
  rfl

theorem assemble_isKeyframe {frame : ReassembledVideoFrame} (h : entry.assemble = some frame) :
    frame.isKeyframe = entry.isKeyframe := by
  simp only [assemble, Option.bind_eq_bind, Option.bind_eq_some_iff, Option.some.injEq] at h
  obtain ⟨_, _, _, _, rfl⟩ := h
  rfl

end PendingFrame

/-- The incomplete frames by their timestamp. -/
structure VideoReassembler where
  pending : Table UInt32 PendingFrame

namespace VideoReassembler

def new : VideoReassembler := ⟨∅⟩

/-- The entry of the frame with what the packet adds to it. -/
def entryWith (r : VideoReassembler) (pkt : MediaPacket) : PendingFrame :=
  ((r.pending.lookup pkt.header.timestamp).getD PendingFrame.empty).accept pkt

def push (r : VideoReassembler) (pkt : MediaPacket) :
    VideoReassembler × Option ReassembledVideoFrame :=
  let entry := r.entryWith pkt
  let pending := r.pending.insert pkt.header.timestamp entry
  if entry.ready then (⟨pending.erase pkt.header.timestamp⟩, entry.assemble) else (⟨pending⟩, none)

def evictStale (r : VideoReassembler) (currentTimestampMs maxAgeMs : UInt32) : VideoReassembler :=
  ⟨r.pending.retain fun ts _ => currentTimestampMs - ts ≤ maxAgeMs⟩

end VideoReassembler
end Wzp.Video
