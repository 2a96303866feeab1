import Mathlib.Data.List.Forall2
import Mathlib.Data.List.Perm.Basic
import Wzp.Lib.SerialNumber
import Wzp.Video.Transport

/-!
# Frames put together again

What an entry of the reassembler holds is a set of fragments of one frame, as long as
no other frame has its timestamp. The frame is returned with the last of them.
-/
namespace Wzp.Video
open Bytes Proto

/-- A frame that is sent, with the number of its first packet. -/
structure VideoFrame where
  data : Buf
  codecId : CodecId
  isKeyframe : Bool
  seq : UInt32
  timestampMs : UInt32
  width : UInt32
  height : UInt32

namespace VideoFrame

def packets (f : VideoFrame) : List MediaPacket :=
  (packetizeVideoFrame f.data f.codecId f.isKeyframe f.seq f.timestampMs f.width f.height).1

/-- The payloads of the packets. -/
def pieces (f : VideoFrame) : List Buf :=
  (chunks videoMaxPayload (framed f.data f.width f.height)).take 255

/-- The whole frame, as it is to be returned. -/
def received (f : VideoFrame) : ReassembledVideoFrame where
  codecId := f.codecId
  isKeyframe := f.isKeyframe
  width := some (min f.width.toNat 65535).toUInt16
  height := some (min f.height.toNat 65535).toUInt16
  data := f.data

/-- It fits into 255 packets. -/
def Fits (f : VideoFrame) : Prop := f.data.length ≤ 255 * 1168 - 8

/-- The packet has the fragment `i` of the frame, on whatever stream. -/
structure Fragment (f : VideoFrame) (i : ℕ) (pkt : MediaPacket) : Prop where
  piece : f.pieces[i]? = some pkt.payload
  timestamp : pkt.header.timestamp = f.timestampMs
  index : fragmentIndex pkt.header = UInt8.ofNat i
  count : fragmentCount pkt.header = UInt8.ofNat f.pieces.length
  isKeyframe : pkt.header.isKeyframe = f.isKeyframe
  frameEnd : pkt.header.isFrameEnd = (i + 1 == f.pieces.length)
  codecId : pkt.header.codecId = f.codecId

/-! ## The packets of a frame -/

variable {f : VideoFrame} {i : ℕ} {pkt : MediaPacket}

theorem length_pieces_lt (f : VideoFrame) : f.pieces.length < 256 := by
  rw [pieces, List.length_take]
  omega

theorem pieces_pos (h : f.data ≠ []) : 0 < f.pieces.length := by
  have hpos := List.length_pos_iff.mpr h
  rw [pieces, List.length_take, chunks, List.length_map, List.length_range, framed,
    List.length_append, videoMaxPayload]
  omega

theorem packets_eq (h : f.data ≠ []) : f.packets = f.pieces.zipIdx.map fun (chunk, i) =>
    fragmentPacket f.codecId f.isKeyframe f.seq f.timestampMs f.pieces.length i chunk := by
  rw [packets, packetizeVideoFrame, if_neg (by rw [List.isEmpty_iff]; exact h)]
  rfl

theorem packets_of_empty (h : f.data = []) : f.packets = [] := by
  rw [packets, packetizeVideoFrame, if_pos (by rw [h]; rfl)]

theorem length_packets (h : f.data ≠ []) : f.packets.length = f.pieces.length := by
  rw [packets_eq h, List.length_map, List.length_zipIdx]

theorem data_ne_nil (h : f.packets[i]? = some pkt) : f.data ≠ [] := by
  intro hempty
  rw [packets_of_empty hempty] at h
  exact nomatch h

theorem fragment_of_packets (h : f.packets[i]? = some pkt) : f.Fragment i pkt := by
  rw [packets_eq (data_ne_nil h), List.getElem?_map, List.getElem?_zipIdx] at h
  obtain ⟨⟨chunk, j⟩, hmap, rfl⟩ := Option.map_eq_some_iff.mp h
  obtain ⟨chunk', hchunk, heq⟩ := Option.map_eq_some_iff.mp hmap
  obtain ⟨rfl, rfl⟩ := Prod.mk.inj heq
  rw [Nat.zero_add]
  obtain ⟨hi, -⟩ := List.getElem?_eq_some_iff.mp hchunk
  have hlt := f.length_pieces_lt
  exact
    { piece := hchunk
      timestamp := rfl
      index := fragmentIndex_fragmentPacket _ _ _ _ _ (Nat.lt_trans hi hlt) hlt
      count := fragmentCount_fragmentPacket _ _ _ _ _ (Nat.lt_trans hi hlt) hlt
      isKeyframe := isKeyframe_fragmentPacket _ _ _ _ _
      frameEnd := isFrameEnd_fragmentPacket _ _ _ _ _
      codecId := rfl }

theorem Fragment.lt (h : f.Fragment i pkt) : i < f.pieces.length :=
  (List.getElem?_eq_some_iff.mp h.piece).1

theorem Fragment.lt_256 (h : f.Fragment i pkt) : i < 256 :=
  Nat.lt_trans h.lt f.length_pieces_lt

/-- The relay rewrites the stream of a packet. -/
theorem Fragment.onStream (h : f.Fragment i pkt) (streamId : UInt8) :
    f.Fragment i { pkt with header := { pkt.header with streamId } } :=
  ⟨h.piece, h.timestamp, h.index, h.count, h.isKeyframe, h.frameEnd, h.codecId⟩

end VideoFrame

/-! ## The payload -/

theorem mapM_congr {α β : Type*} {g g' : α → Option β} {as : List α}
    (h : ∀ a ∈ as, g a = g' a) : as.mapM g = as.mapM g' := by
  induction as with
  | nil => rfl
  | cons a as ih =>
      rw [List.mapM_cons, List.mapM_cons, h a List.mem_cons_self,
        ih fun b hb => h b (List.mem_cons_of_mem a hb)]

theorem mapM_getElem? {α : Type*} (as : List α) :
    (List.range as.length).mapM (fun i => as[i]?) = some as := by
  induction as with
  | nil => rfl
  | cons a as ih =>
      have hshift : (List.range as.length).mapM (fun i => (a :: as)[i + 1]?) = some as := ih
      rw [List.length_cons, List.range_succ_eq_map, List.mapM_cons, List.mapM_map]
      exact hshift ▸ rfl

theorem splitVideoFramePayload_framed (data : Buf) (width height : UInt32) :
    PendingFrame.splitVideoFramePayload (framed data width height) =
      (some ⟨(min width.toNat 65535).toUInt16, (min height.toNat 65535).toUInt16⟩, data) := by
  have hlong : ¬ ((framed data width height).length < videoFrameMetaLen ∨
      (framed data width height).take 4 ≠ videoFrameMetaMagic) := by
    rintro (hshort | hmagic)
    · rw [framed, List.length_append, videoFrameMetaLen] at hshort
      change 8 + data.length < 8 at hshort
      omega
    · exact hmagic rfl
  rw [PendingFrame.splitVideoFramePayload, if_neg hlong]
  have hwidth : (getU16 ((framed data width height).drop 4)).1 =
      (min width.toNat 65535).toUInt16 :=
    congrArg Prod.fst (getU16_put _ (putU16 (min height.toNat 65535).toUInt16 ++ data))
  have hheight : (getU16 ((framed data width height).drop 6)).1 =
      (min height.toNat 65535).toUInt16 := congrArg Prod.fst (getU16_put _ data)
  rw [hwidth, hheight]
  rfl

theorem VideoFrame.flatten_pieces {f : VideoFrame} (h : f.Fits) :
    f.pieces.flatten = framed f.data f.width f.height := by
  have hlength : (framed f.data f.width f.height).length = 8 + f.data.length := by
    rw [framed, List.length_append]
    rfl
  have hfew : (chunks videoMaxPayload (framed f.data f.width f.height)).length ≤ 255 := by
    unfold VideoFrame.Fits at h
    rw [chunks, List.length_map, List.length_range, hlength, videoMaxPayload]
    omega
  rw [VideoFrame.pieces, List.take_of_length_le hfew, flatten_chunks (by decide)]

/-! ## What the reassembler holds -/

/-- The entry has the fragments `is` of the frame, and nothing else. -/
structure Holding (f : VideoFrame) (is : List ℕ) (entry : PendingFrame) : Prop where
  lookup : ∀ k, entry.fragments.lookup k = if k.toNat ∈ is then f.pieces[k.toNat]? else none
  lt : ∀ i ∈ is, i < f.pieces.length
  total : is ≠ [] → entry.totalFragments = UInt8.ofNat f.pieces.length
  isKeyframe : entry.isKeyframe = (f.isKeyframe && !is.isEmpty)
  sawFrameEnd : entry.sawFrameEnd = true ↔ f.pieces.length - 1 ∈ is
  codecId : is ≠ [] → entry.codecId = some f.codecId

variable {f : VideoFrame} {is : List ℕ} {i : ℕ} {entry : PendingFrame} {pkt : MediaPacket}

theorem holding_empty (f : VideoFrame) : Holding f [] PendingFrame.empty where
  lookup := fun k => (AList.lookup_empty k).trans (if_neg List.not_mem_nil).symm
  lt := fun _ hi => absurd hi List.not_mem_nil
  total := fun h => absurd rfl h
  isKeyframe := (Bool.and_false _).symm
  sawFrameEnd := ⟨fun h => Bool.noConfusion h, fun h => absurd h List.not_mem_nil⟩
  codecId := fun h => absurd rfl h

theorem Holding.accept (h : Holding f is entry) (hpkt : f.Fragment i pkt) :
    Holding f (i :: is) (entry.accept pkt) where
  lookup := by
    intro k
    have hnat : (UInt8.ofNat i).toNat = i := by
      rw [UInt8.toNat_ofNat', Nat.mod_eq_of_lt hpkt.lt_256]
    change (entry.fragments.insert (fragmentIndex pkt.header) pkt.payload).lookup k = _
    rw [Table.lookup_insert, hpkt.index, h.lookup]
    by_cases hk : k = UInt8.ofNat i
    · subst hk
      rw [if_pos rfl, hnat, if_pos List.mem_cons_self, hpkt.piece]
    · have hki : k.toNat ≠ i := by
        intro heq
        exact hk (UInt8.toNat_inj.mp (heq.trans hnat.symm))
      simp only [if_neg hk, List.mem_cons, or_iff_right hki]
  lt := by
    intro j hj
    rcases List.mem_cons.mp hj with rfl | hj
    · exact hpkt.lt
    · exact h.lt j hj
  total := by
    intro _
    have hpos : 0 < fragmentCount pkt.header := by
      have hlt := hpkt.lt
      have hlt' := f.length_pieces_lt
      rw [hpkt.count, UInt8.lt_iff_toNat_lt, UInt8.toNat_ofNat']
      change 0 < f.pieces.length % 2 ^ 8
      omega
    exact (if_pos hpos).trans hpkt.count
  isKeyframe := by
    change (entry.isKeyframe || pkt.header.isKeyframe) = _
    rw [h.isKeyframe, hpkt.isKeyframe]
    cases f.isKeyframe with
    | false => rfl
    | true => exact Bool.or_true _
  sawFrameEnd := by
    have hlt := hpkt.lt
    change (entry.sawFrameEnd || pkt.header.isFrameEnd) = true ↔ _
    rw [Bool.or_eq_true, h.sawFrameEnd, hpkt.frameEnd, beq_iff_eq, List.mem_cons, or_comm]
    exact or_congr_left ⟨fun heq => by omega, fun heq => by omega⟩
  codecId := fun _ => congrArg some hpkt.codecId

theorem Holding.has_iff (h : Holding f is entry) (hi : i < f.pieces.length) :
    entry.Has i ↔ i ∈ is := by
  have hnat : (UInt8.ofNat i).toNat = i := by
    rw [UInt8.toNat_ofNat', Nat.mod_eq_of_lt (Nat.lt_trans hi f.length_pieces_lt)]
  rw [PendingFrame.Has, h.lookup, hnat, List.getElem?_eq_getElem hi]
  by_cases hmem : i ∈ is
  · rw [if_pos hmem]
    exact iff_of_true rfl hmem
  · rw [if_neg hmem]
    exact iff_of_false Bool.false_ne_true hmem

/-- It is ready with the last missing fragment: there are no others than those
of the frame, so as many as there are in all are all of them. -/
theorem Holding.ready_iff (h : Holding f is entry) (his : is ≠ []) :
    entry.ready = true ↔ ∀ i < f.pieces.length, i ∈ is := by
  have hlt := f.length_pieces_lt
  have hpos : 0 < f.pieces.length := by
    obtain ⟨i, hi⟩ := List.exists_mem_of_ne_nil is his
    exact Nat.lt_of_le_of_lt (Nat.zero_le i) (h.lt i hi)
  constructor
  · intro hready
    rw [PendingFrame.ready, Bool.and_eq_true, decide_eq_true_eq, h.total his, UInt8.toNat_ofNat',
      Nat.mod_eq_of_lt hlt] at hready
    have hkey : ∀ k ∈ entry.fragments.keys, k.toNat ∈ is := by
      intro k hk
      by_contra hnot
      have hsome := AList.lookup_isSome.mpr hk
      rw [h.lookup, if_neg hnot] at hsome
      exact Bool.false_ne_true hsome
    have hnodup : (entry.fragments.keys.map UInt8.toNat).Nodup :=
      (AList.keys_nodup _).map fun _ _ => UInt8.toNat_inj.mp
    have hsubset : entry.fragments.keys.map UInt8.toNat ⊆ List.range f.pieces.length := by
      intro i hi
      obtain ⟨k, hk, rfl⟩ := List.mem_map.mp hi
      exact List.mem_range.mpr (h.lt _ (hkey k hk))
    have hperm := (hnodup.subperm hsubset).perm_of_length_le
      (by rw [List.length_range, List.length_map]; exact hready.2)
    intro i hi
    obtain ⟨k, hk, rfl⟩ := List.mem_map.mp (hperm.mem_iff.mpr (List.mem_range.mpr hi))
    exact hkey k hk
  · intro hall
    have hend := h.sawFrameEnd.mpr (hall _ (by omega))
    exact PendingFrame.ready_of_has hpos hlt hend (h.total his) fun i hi =>
      (h.has_iff hi).mpr (hall i hi)

/-- The entry of a frame gives the frame. -/
theorem Holding.assemble (h : Holding f is entry) (hall : ∀ i < f.pieces.length, i ∈ is)
    (his : is ≠ []) (hfits : f.Fits) : entry.assemble = some f.received := by
  have hlt := f.length_pieces_lt
  have hpieces : (List.range f.pieces.length).mapM (fun i =>
      entry.fragments.lookup (UInt8.ofNat i)) = some f.pieces := by
    have hlookup : ∀ i ∈ List.range f.pieces.length,
        entry.fragments.lookup (UInt8.ofNat i) = f.pieces[i]? := by
      intro i hi
      have hi := List.mem_range.mp hi
      rw [h.lookup, UInt8.toNat_ofNat', Nat.mod_eq_of_lt (Nat.lt_trans hi hlt),
        if_pos (hall i hi)]
    rw [mapM_congr hlookup, mapM_getElem?]
  have hkeyframe : entry.isKeyframe = f.isKeyframe := by
    rw [h.isKeyframe, List.isEmpty_eq_false_iff.mpr his]
    exact Bool.and_true _
  have hsplit : PendingFrame.splitVideoFramePayload f.pieces.flatten =
      (some ⟨(min f.width.toNat 65535).toUInt16, (min f.height.toNat 65535).toUInt16⟩, f.data) := by
    rw [VideoFrame.flatten_pieces hfits, splitVideoFramePayload_framed]
  simp only [PendingFrame.assemble, h.codecId his, h.total his, UInt8.toNat_ofNat',
    Nat.mod_eq_of_lt hlt, hkeyframe, hpieces, Option.bind_eq_bind, Option.bind_some, hsplit]
  rfl

namespace VideoReassembler

/-- What has come of the frame, under its timestamp. -/
def Holds (r : VideoReassembler) (f : VideoFrame) (is : List ℕ) : Prop :=
  Holding f is ((r.pending.lookup f.timestampMs).getD PendingFrame.empty)

variable {r : VideoReassembler}

theorem push_of_ready (h : (r.entryWith pkt).ready = true) :
    r.push pkt = (⟨(r.pending.insert pkt.header.timestamp (r.entryWith pkt)).erase
      pkt.header.timestamp⟩, (r.entryWith pkt).assemble) := by
  rw [push, if_pos h]

theorem push_of_not_ready (h : (r.entryWith pkt).ready ≠ true) :
    r.push pkt = (⟨r.pending.insert pkt.header.timestamp (r.entryWith pkt)⟩, none) := by
  rw [push, if_neg h]

/-- The other timestamps are left alone. -/
theorem lookup_push_of_ne {ts : UInt32} (h : pkt.header.timestamp ≠ ts) :
    (r.push pkt).1.pending.lookup ts = r.pending.lookup ts := by
  by_cases hready : (r.entryWith pkt).ready = true
  · rw [push_of_ready hready]
    exact (Table.lookup_erase_ne (Ne.symm h)).trans (Table.lookup_insert_ne (Ne.symm h))
  · rw [push_of_not_ready hready]
    exact Table.lookup_insert_ne (Ne.symm h)

theorem Holds.entryWith (h : r.Holds f is) (hpkt : f.Fragment i pkt) :
    Holding f (i :: is) (r.entryWith pkt) := by
  rw [VideoReassembler.entryWith, hpkt.timestamp]
  exact Holding.accept h hpkt

theorem holds_of_none (h : r.pending.lookup f.timestampMs = none) : r.Holds f [] := by
  rw [Holds, h]
  exact holding_empty f

theorem Holds.push_last (h : r.Holds f is) (hpkt : f.Fragment i pkt)
    (hall : ∀ j < f.pieces.length, j ∈ i :: is) :
    (r.push pkt).1.pending.lookup f.timestampMs = none ∧
      (f.Fits → (r.push pkt).2 = some f.received) := by
  have hentry := h.entryWith hpkt
  have hne : i :: is ≠ [] := List.cons_ne_nil i is
  rw [push_of_ready ((hentry.ready_iff hne).mpr hall)]
  constructor
  · rw [hpkt.timestamp]
    exact Table.lookup_erase_self _ _
  · exact hentry.assemble hall hne

theorem Holds.push_more (h : r.Holds f is) (hpkt : f.Fragment i pkt)
    (hmore : ¬ ∀ j < f.pieces.length, j ∈ i :: is) :
    (r.push pkt).1.Holds f (i :: is) ∧ (r.push pkt).2 = none := by
  have hentry := h.entryWith hpkt
  have hready := mt (hentry.ready_iff (List.cons_ne_nil i is)).mp hmore
  rw [push_of_not_ready hready]
  constructor
  · rw [Holds, hpkt.timestamp, Table.lookup_insert_self]
    exact hentry
  · rfl

theorem Holds.push_of_ne (h : r.Holds f is) (hpkt : pkt.header.timestamp ≠ f.timestampMs) :
    (r.push pkt).1.Holds f is := by
  rw [Holds, lookup_push_of_ne hpkt]
  exact h

/-! ## Any order -/

/-- What is returned for each packet, with the timestamp of the packet. -/
def answers : VideoReassembler → List MediaPacket → List (UInt32 × Option ReassembledVideoFrame)
  | _, [] => []
  | r, pkt :: rest => (pkt.header.timestamp, (r.push pkt).2) :: answers (r.push pkt).1 rest

/-- What is returned for the packets of one timestamp. -/
def answersAt (r : VideoReassembler) (ts : UInt32) (pkts : List MediaPacket) :
    List (Option ReassembledVideoFrame) :=
  ((r.answers pkts).filter fun a => a.1 = ts).map Prod.snd

variable {ts : UInt32} {pkts : List MediaPacket}

theorem answersAt_cons_of_eq (h : pkt.header.timestamp = ts) :
    r.answersAt ts (pkt :: pkts) = (r.push pkt).2 :: (r.push pkt).1.answersAt ts pkts := by
  rw [answersAt, answers, List.filter_cons, if_pos (decide_eq_true h)]
  rfl

theorem answersAt_cons_of_ne (h : pkt.header.timestamp ≠ ts) :
    r.answersAt ts (pkt :: pkts) = (r.push pkt).1.answersAt ts pkts := by
  rw [answersAt, answers, List.filter_cons,
    if_neg (fun hts => h (of_decide_eq_true hts))]
  rfl

theorem answersAt_of_none (h : ∀ pkt ∈ pkts, pkt.header.timestamp ≠ ts) :
    r.answersAt ts pkts = [] := by
  induction pkts generalizing r with
  | nil => rfl
  | cons pkt pkts ih =>
      rw [answersAt_cons_of_ne (h pkt List.mem_cons_self)]
      exact ih fun p hp => h p (List.mem_cons_of_mem pkt hp)

/-- The fragments that are missing come in some order: nothing is returned before
the last of them. -/
theorem Holds.answersAt {js : List ℕ} (h : r.Holds f is) (hfits : f.Fits)
    (hjs : List.Forall₂ (fun pkt j => f.Fragment j pkt)
      (pkts.filter fun pkt => pkt.header.timestamp = f.timestampMs) js)
    (hall : (js ++ is).Perm (List.range f.pieces.length)) (hmore : js ≠ []) :
    r.answersAt f.timestampMs pkts =
      List.replicate (js.length - 1) none ++ [some f.received] := by
  induction pkts generalizing r is js with
  | nil =>
      cases hjs
      exact absurd rfl hmore
  | cons pkt pkts ih =>
      by_cases hts : pkt.header.timestamp = f.timestampMs
      · rw [List.filter_cons, if_pos (decide_eq_true hts)] at hjs
        rw [answersAt_cons_of_eq hts]
        cases hjs with
        | @cons _ j _ js hpkt hrest =>
            have hswap : (js ++ j :: is).Perm (List.range f.pieces.length) :=
              List.perm_middle.trans hall
            cases js with
            | nil =>
                have hlast := h.push_last hpkt fun k hk => hswap.mem_iff.mpr (List.mem_range.mpr hk)
                have hnone := List.forall₂_nil_right_iff.mp hrest
                rw [hlast.2 hfits, answersAt_of_none]
                · rfl
                · intro p hp hpts
                  exact List.filter_eq_nil_iff.mp hnone p hp (decide_eq_true hpts)
            | cons k js =>
                have hnodup := hswap.nodup_iff.mpr List.nodup_range
                have hk := hswap.mem_iff.mp (List.mem_append_left _ List.mem_cons_self)
                have hmissing : ¬ ∀ l < f.pieces.length, l ∈ j :: is := fun hfull =>
                  (List.nodup_append.mp hnodup).2.2 k List.mem_cons_self k
                    (hfull k (List.mem_range.mp hk)) rfl
                have hnext := h.push_more hpkt hmissing
                rw [hnext.2, ih hnext.1 hrest hswap (List.cons_ne_nil k js)]
                rfl
      · rw [List.filter_cons, if_neg (fun h => hts (of_decide_eq_true h))] at hjs
        rw [answersAt_cons_of_ne hts]
        exact ih (h.push_of_ne hts) hjs hall hmore

/-- In whatever order the packets of a frame come, and whatever else comes between
them: the frame is returned once, with the last of them. -/
theorem answersAt_of_perm (hdata : f.data ≠ []) (hfits : f.Fits)
    (hnew : r.pending.lookup f.timestampMs = none)
    (hpkts : (pkts.filter fun pkt => pkt.header.timestamp = f.timestampMs).Perm f.packets) :
    r.answersAt f.timestampMs pkts =
      List.replicate (f.packets.length - 1) none ++ [some f.received] := by
  have hfragments : List.Forall₂ (fun pkt j => f.Fragment j pkt) f.packets
      (List.range f.pieces.length) := by
    refine List.forall₂_iff_get.mpr ⟨?_, ?_⟩
    · rw [VideoFrame.length_packets hdata, List.length_range]
    · intro i hi hi'
      rw [List.get_eq_getElem, List.get_eq_getElem, List.getElem_range]
      exact VideoFrame.fragment_of_packets (List.getElem?_eq_getElem hi)
  obtain ⟨js, hjs, hperm⟩ := List.perm_comp_forall₂ hpkts hfragments
  have hlength : js.length = f.packets.length := by
    rw [hperm.length_eq, List.length_range, VideoFrame.length_packets hdata]
  have hmore : js ≠ [] := by
    rintro rfl
    have hpos := VideoFrame.pieces_pos hdata
    rw [VideoFrame.length_packets hdata] at hlength
    exact Nat.ne_of_lt hpos hlength
  rw [← hlength]
  exact (holds_of_none hnew).answersAt hfits hjs (by rw [List.append_nil]; exact hperm) hmore

def twoPackets : VideoFrame := ⟨List.replicate 1200 7, .h264Baseline, true, 4294967295, 33, 640, 70000⟩

def onePacket : VideoFrame := ⟨[1, 2, 3], .h264Baseline, false, 1, 66, 640, 70000⟩

/-- The last packet first, and another frame after each. -/
theorem answersAt_twoPackets :
    new.answersAt twoPackets.timestampMs
      (twoPackets.packets.reverse.flatMap fun pkt => pkt :: onePacket.packets) =
        [none, some twoPackets.received] := by
  have hlength : twoPackets.packets.length = 2 := by decide +kernel
  have h := answersAt_of_perm (show twoPackets.data ≠ [] from List.cons_ne_nil 7 _)
    (show _ ≤ _ by rw [twoPackets, List.length_replicate]; decide)
    (AList.lookup_empty twoPackets.timestampMs)
    (show (List.filter _
      (twoPackets.packets.reverse.flatMap fun pkt => pkt :: onePacket.packets)).Perm _
      by decide +kernel)
  rw [hlength] at h
  exact h

/-! ## Eviction -/

/-- By how much a timestamp is before the current one, or after it if negative. -/
def ageMs (currentTimestampMs ts : UInt32) : ℤ :=
  currentTimestampMs.toNat - Serial.nearest (2 ^ 32) currentTimestampMs.toNat ts.toNat

variable {currentTimestampMs maxAgeMs : UInt32}

theorem ageMs_cases (currentTimestampMs ts : UInt32) :
    ageMs currentTimestampMs ts = (currentTimestampMs - ts).toNat ∨
      ageMs currentTimestampMs ts < 0 ∧ 2 ^ 31 < (currentTimestampMs - ts).toNat := by
  have hself : (currentTimestampMs.toNat : ℤ) ≡ currentTimestampMs.toNat [ZMOD 2 ^ 32] :=
    Int.ModEq.refl _
  have hcurrent := currentTimestampMs.toNat_lt
  have hts := ts.toNat_lt
  have hback := UInt32.toNat_sub currentTimestampMs ts
  have hahead := UInt32.toNat_sub ts currentTimestampMs
  unfold ageMs
  by_cases h : (ts - currentTimestampMs).toNat < 2 ^ 31
  · rw [Serial.nearest_ahead hself h]
    omega
  · rw [Serial.nearest_behind hself h]
    omega

theorem lookup_evictStale (r : VideoReassembler) (currentTimestampMs maxAgeMs ts : UInt32) :
    (r.evictStale currentTimestampMs maxAgeMs).pending.lookup ts =
      if currentTimestampMs - ts ≤ maxAgeMs then r.pending.lookup ts else none := by
  have hlookup := r.pending.lookup_retain_keys (fun ts => currentTimestampMs - ts ≤ maxAgeMs) ts
  simp only [decide_eq_true_eq] at hlookup
  exact hlookup

/-- Exactly the frames that are too old are dropped if none is newer than the current
timestamp, and otherwise not. -/
theorem evictStale_exact_iff (r : VideoReassembler) (currentTimestampMs : UInt32)
    (hage : maxAgeMs.toNat < 2 ^ 31) :
    (∀ ts, (r.evictStale currentTimestampMs maxAgeMs).pending.lookup ts =
        if (maxAgeMs.toNat : ℤ) < ageMs currentTimestampMs ts then none
        else r.pending.lookup ts) ↔
      ∀ ts ∈ r.pending, 0 ≤ ageMs currentTimestampMs ts := by
  constructor
  · intro h ts hmem
    by_contra hnewer
    have hbeyond : 2 ^ 31 < (currentTimestampMs - ts).toNat :=
      (ageMs_cases currentTimestampMs ts).elim (fun heq => by omega) And.right
    have hdropped : ¬ currentTimestampMs - ts ≤ maxAgeMs := by
      rw [UInt32.le_iff_toNat_le]
      omega
    have hlookup := h ts
    rw [lookup_evictStale, if_neg hdropped, if_neg (by omega)] at hlookup
    exact AList.lookup_eq_none.mp hlookup.symm hmem
  · intro h ts
    rw [lookup_evictStale]
    by_cases hmem : ts ∈ r.pending
    · have hage : ageMs currentTimestampMs ts = (currentTimestampMs - ts).toNat :=
        (ageMs_cases currentTimestampMs ts).resolve_right fun hnewer =>
          absurd hnewer.1 (not_lt.mpr (h ts hmem))
      have hiff : currentTimestampMs - ts ≤ maxAgeMs ↔
          ¬ (maxAgeMs.toNat : ℤ) < ageMs currentTimestampMs ts := by
        rw [UInt32.le_iff_toNat_le, hage]
        omega
      simp only [hiff, ite_not]
    · rw [AList.lookup_eq_none.mpr hmem, ite_self, ite_self]

/-- A frame of a second before the clock went around, and one of a quarter after. -/
def aroundTheClock : VideoReassembler :=
  ⟨((∅ : Table UInt32 PendingFrame).insert 4294966296 .empty).insert 250 .empty⟩

theorem evictStale_aroundTheClock :
    (aroundTheClock.evictStale 250 1000).pending.lookup 4294966296 = none ∧
      ((aroundTheClock.evictStale 250 1000).pending.lookup 250).isSome = true := by
  have hexact := (evictStale_exact_iff aroundTheClock 250
    (show (1000 : UInt32).toNat < 2 ^ 31 by decide)).mpr
  have hlookup := hexact fun ts hmem => by
    obtain rfl | hmem := Table.mem_insert.mp hmem
    · decide +kernel
    obtain rfl | hmem := Table.mem_insert.mp hmem
    · decide +kernel
    · exact absurd hmem (AList.notMem_empty ts)
  rw [hlookup, hlookup]
  decide +kernel

/-- The frame a quarter of a second ahead of the clock is dropped, which is not old at all. -/
theorem evictStale_drops_newer : ageMs 0 250 = -250 ∧
    (aroundTheClock.pending.lookup 250).isSome = true ∧
      (aroundTheClock.evictStale 0 1000).pending.lookup 250 = none := by
  decide +kernel

end VideoReassembler
end Wzp.Video
