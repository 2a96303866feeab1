import Mathlib.Algebra.GroupWithZero.Nat
import Wzp.Proto.Packet

/-!
# Trunk frames

Packets of several sessions in one datagram: a count, and for each entry the
session, the length and the encoded packet.
-/
namespace Wzp.Proto
open Bytes

structure TrunkEntry where
  sessionId : UInt8 × UInt8
  payload : Buf
  deriving DecidableEq, Repr

namespace TrunkEntry

def overhead : ℕ := 4

def encode (e : TrunkEntry) : Buf :=
  [e.sessionId.1, e.sessionId.2] ++ (putU16 (UInt16.ofNat e.payload.length) ++ e.payload)

end TrunkEntry

structure TrunkFrame where
  packets : List TrunkEntry
  deriving DecidableEq, Repr

namespace TrunkFrame

def new : TrunkFrame := ⟨[]⟩

def push (f : TrunkFrame) (sessionId : UInt8 × UInt8) (payload : Buf) : TrunkFrame :=
  ⟨f.packets ++ [⟨sessionId, payload⟩]⟩

def len (f : TrunkFrame) : ℕ := f.packets.length

def isEmpty (f : TrunkFrame) : Bool := f.packets.isEmpty

def wireSize (f : TrunkFrame) : ℕ :=
  2 + (f.packets.map fun e => TrunkEntry.overhead + e.payload.length).sum

def encode (f : TrunkFrame) : Buf :=
  putU16 (UInt16.ofNat f.packets.length) ++ f.packets.flatMap TrunkEntry.encode

/-- Nothing if the buffer ends before the last of `count` entries. -/
def decodeEntries : ℕ → Buf → Except OutOfRange (Option (List TrunkEntry))
  | 0, _ => .ok (some [])
  | count + 1, cursor =>
      if cursor.length < TrunkEntry.overhead then .ok none
      else do
        let (id0, cursor) ← readU8 cursor
        let (id1, cursor) ← readU8 cursor
        let (len, cursor) ← readU16 cursor
        if cursor.length < len.toNat then .ok none
        else do
          let (payload, cursor) ← split len.toNat cursor
          let packets ← decodeEntries count cursor
          .ok (packets.map (⟨(id0, id1), payload⟩ :: ·))

def decode (buf : Buf) : Except OutOfRange (Option TrunkFrame) :=
  if buf.length < 2 then .ok none
  else do
    let (count, cursor) ← readU16 buf
    let packets ← decodeEntries count.toNat cursor
    .ok (packets.map TrunkFrame.mk)

end TrunkFrame

/-! ## Decoding -/

namespace TrunkEntry

theorem length_encode (e : TrunkEntry) : e.encode.length = overhead + e.payload.length := by
  rw [encode, List.length_append, List.length_append, ← Nat.add_assoc]
  rfl

end TrunkEntry

namespace TrunkFrame

/-- The counts fit into their 16 bits. -/
structure Fits (f : TrunkFrame) : Prop where
  count : f.packets.length ≤ 65535
  payload : ∀ e ∈ f.packets, e.payload.length ≤ 65535

theorem length_encode (f : TrunkFrame) : f.encode.length = f.wireSize := by
  rw [encode, wireSize, List.length_append, List.length_flatMap]
  exact congrArg (fun sizes => 2 + List.sum sizes)
    (List.map_congr_left fun e _ => TrunkEntry.length_encode e)

/-- An entry in front of what is left. -/
theorem decodeEntries_encode {e : TrunkEntry} (he : e.payload.length ≤ 65535) (count : ℕ)
    (rest : Buf) : decodeEntries (count + 1) (e.encode ++ rest) =
      (decodeEntries count rest >>= fun packets => .ok (packets.map (e :: ·))) := by
  have hlen : (UInt16.ofNat e.payload.length).toNat = e.payload.length :=
    UInt16.toNat_ofNat_of_lt' (Nat.lt_succ_of_le he)
  have hlong : ¬ (e.encode ++ rest).length < TrunkEntry.overhead := by
    rw [List.length_append, TrunkEntry.length_encode]
    omega
  have hpayload : ¬ (e.payload ++ rest).length < e.payload.length := by
    rw [List.length_append]
    omega
  rw [decodeEntries, if_neg hlong]
  simp only [TrunkEntry.encode, List.append_assoc, List.cons_append, List.nil_append, readU8_cons,
    readU16_put, hlen, if_neg hpayload, split_append, bind, Except.bind]

theorem decodeEntries_flatMap {packets : List TrunkEntry}
    (h : ∀ e ∈ packets, e.payload.length ≤ 65535) (rest : Buf) :
    decodeEntries packets.length (packets.flatMap TrunkEntry.encode ++ rest) =
      .ok (some packets) := by
  induction packets with
  | nil => rfl
  | cons e packets ih =>
      rw [List.length_cons, List.flatMap_cons, List.append_assoc,
        decodeEntries_encode (h e List.mem_cons_self),
        ih fun e he => h e (List.mem_cons_of_mem _ he)]
      rfl

theorem decode_encode {f : TrunkFrame} (h : f.Fits) : decode f.encode = .ok (some f) := by
  have hcount : (UInt16.ofNat f.packets.length).toNat = f.packets.length :=
    UInt16.toNat_ofNat_of_lt' (Nat.lt_succ_of_le h.count)
  have hlong : ¬ f.encode.length < 2 := by
    rw [length_encode, wireSize]
    omega
  have hentries := decodeEntries_flatMap h.payload []
  rw [List.append_nil] at hentries
  rw [decode, if_neg hlong]
  simp only [encode, readU16_put, hcount, hentries, bind, Except.bind]
  rfl

/-- A buffer that is long enough begins with an entry. -/
theorem exists_entry {cursor : Buf} (h : TrunkEntry.overhead ≤ cursor.length) :
    ∃ id0 id1 len body, cursor = id0 :: id1 :: (putU16 len ++ body) := by
  obtain _ | ⟨id0, _ | ⟨id1, cursor⟩⟩ := cursor
  · cases Nat.not_succ_le_zero 3 h
  · cases Nat.not_succ_le_zero 2 (Nat.le_of_succ_le_succ h)
  · obtain ⟨len, body, rfl⟩ := exists_putU16 (Nat.le_of_succ_le_succ (Nat.le_of_succ_le_succ h))
    exact ⟨id0, id1, len, body, rfl⟩

/-- No read goes beyond the end, and what is decoded stands at the front. -/
theorem decodeEntries_returns (count : ℕ) (cursor : Buf) :
    ∃ packets, decodeEntries count cursor = .ok packets ∧ ∀ entries, packets = some entries →
      entries.length = count ∧ (∀ e ∈ entries, e.payload.length ≤ 65535) ∧
        entries.flatMap TrunkEntry.encode <+: cursor := by
  induction count generalizing cursor with
  | zero =>
      refine ⟨some [], rfl, fun entries h => ?_⟩
      obtain rfl := Option.some.inj h
      exact ⟨rfl, fun e he => absurd he List.not_mem_nil, List.nil_prefix⟩
  | succ count ih =>
      by_cases hlong : cursor.length < TrunkEntry.overhead
      · exact ⟨none, by rw [decodeEntries, if_pos hlong], fun _ h => nomatch h⟩
      · obtain ⟨id0, id1, len, body, rfl⟩ := exists_entry (Nat.le_of_not_lt hlong)
        by_cases hbody : body.length < len.toNat
        · refine ⟨none, ?_, fun _ h => nomatch h⟩
          rw [decodeEntries, if_neg hlong]
          simp only [readU8_cons, readU16_put, if_pos hbody, bind, Except.bind]
        · have hle := Nat.le_of_not_lt hbody
          have htake : (body.take len.toNat).length = len.toNat := by
            rw [List.length_take, Nat.min_eq_left hle]
          have hlen := len.toNat_lt
          obtain ⟨packets, hdecode, hspec⟩ := ih (body.drop len.toNat)
          have hentry : id0 :: id1 :: (putU16 len ++ body) =
              (TrunkEntry.mk (id0, id1) (body.take len.toNat)).encode ++ body.drop len.toNat := by
            simp only [TrunkEntry.encode, htake, UInt16.ofNat_toNat, List.append_assoc,
              List.take_append_drop, List.cons_append, List.nil_append]
          rw [hentry, decodeEntries_encode (Nat.le_trans (Nat.le_of_eq htake) (Nat.le_of_lt_succ hlen)), hdecode]
          refine ⟨_, rfl, fun entries hentries => ?_⟩
          obtain ⟨rest, hrest, rfl⟩ := Option.map_eq_some_iff.mp hentries
          obtain ⟨hcount, hpayload, hprefix⟩ := hspec rest hrest
          refine ⟨congrArg (· + 1) hcount, ?_, ?_⟩
          · intro e he
            rcases List.mem_cons.mp he with rfl | he
            · exact Nat.le_trans (Nat.le_of_eq htake) (Nat.le_of_lt_succ hlen)
            · exact hpayload e he
          · rw [List.flatMap_cons]
            exact (List.prefix_append_right_inj _).mpr hprefix

theorem decode_returns (b : Buf) : ∃ result, decode b = .ok result ∧ ∀ f, result = some f →
    f.Fits ∧ f.encode <+: b := by
  by_cases hlong : b.length < 2
  · exact ⟨none, by rw [decode, if_pos hlong], fun _ h => nomatch h⟩
  · obtain ⟨count, body, rfl⟩ := exists_putU16 (Nat.le_of_not_lt hlong)
    obtain ⟨packets, hdecode, hspec⟩ := decodeEntries_returns count.toNat body
    refine ⟨packets.map TrunkFrame.mk, ?_, fun f hf => ?_⟩
    · rw [decode, if_neg hlong]
      simp only [readU16_put, hdecode, bind, Except.bind]
    · obtain ⟨entries, hentries, rfl⟩ := Option.map_eq_some_iff.mp hf
      obtain ⟨hcount, hpayload, hprefix⟩ := hspec entries hentries
      have hbound := count.toNat_lt
      refine ⟨⟨Nat.le_trans (Nat.le_of_eq hcount) (Nat.le_of_lt_succ hbound), hpayload⟩, ?_⟩
      rw [encode, hcount, UInt16.ofNat_toNat]
      exact (List.prefix_append_right_inj _).mpr hprefix

/-- A frame that fits is decoded from what it is encoded to, and what is decoded was
encoded at the front of the buffer. -/
theorem decode_codec :
    (∀ f : TrunkFrame, f.Fits → decode f.encode = .ok (some f) ∧ f.encode.length = f.wireSize) ∧
      ∀ b, ∃ result, decode b = .ok result ∧ ∀ f, result = some f → f.encode <+: b := by
  constructor
  · intro f h
    exact ⟨decode_encode h, f.length_encode⟩
  · intro b
    obtain ⟨result, hdecode, hspec⟩ := decode_returns b
    exact ⟨result, hdecode, fun f hf => (hspec f hf).2⟩

theorem decode_codec_pair :
    decode (encode ⟨[⟨(0, 1), [7]⟩, ⟨(0, 2), []⟩]⟩) = .ok (some ⟨[⟨(0, 1), [7]⟩, ⟨(0, 2), []⟩]⟩) :=
  (decode_codec.1 ⟨[⟨(0, 1), [7]⟩, ⟨(0, 2), []⟩]⟩ ⟨by decide, by decide⟩).1

end TrunkFrame

/-! ## Trunk frames are no media packets -/

theorem MediaHeader.readFrom_cons_ne {b : UInt8} (hb : b ≠ versionByte) (rest : Buf) :
    readFrom (b :: rest) = none := by
  rw [readFrom]
  split
  · rfl
  · simp only [getU8_cons, ne_eq, hb, not_false_eq_true, if_true]

/-- The count of a frame stands where a packet has its version. -/
theorem TrunkFrame.fromBytes_encode {f : TrunkFrame} (h : f.len < 512) :
    MediaPacket.fromBytes f.encode = none := by
  have hcount : (UInt16.ofNat f.packets.length).toNat = f.packets.length :=
    UInt16.toNat_ofNat_of_lt' (Nat.lt_of_lt_of_le h (by decide))
  have hhigh : digit (UInt16.ofNat f.packets.length).toNat 1 ≠ MediaHeader.versionByte := by
    intro heq
    have hvalue := congrArg UInt8.toNat heq
    rw [toNat_digit, hcount] at hvalue
    have hlen : f.packets.length < 512 := h
    have htwo : MediaHeader.versionByte.toNat = 2 := rfl
    omega
  rw [MediaPacket.fromBytes, encode, putU16, List.cons_append, MediaHeader.readFrom_cons_ne hhigh]
  rfl

end Wzp.Proto
