import Wzp.Proto.Compact

/-!
# Decoding compact frames

The readers with every access to the buffer checked. Whatever the bytes are, none goes
beyond the end, and the context moves with the packets that come out.
-/
namespace Wzp.Proto
open Bytes

/-! ## Checked accesses -/

def readU32 (b : Buf) : Except OutOfRange (UInt32 × Buf) :=
  if b.length < 4 then .error .outOfRange else .ok (getU32 b)

/-- A difference of lengths, which must not be negative. -/
def lengthSub (a b : ℕ) : Except OutOfRange ℕ := if a < b then .error .outOfRange else .ok (a - b)

def slice (start stop : ℕ) (b : Buf) : Except OutOfRange Buf :=
  if stop < start ∨ b.length < stop then .error .outOfRange
  else .ok ((b.drop start).take (stop - start))

@[simp] theorem readU32_put (x : UInt32) (b : Buf) : readU32 (putU32 x ++ b) = .ok (x, b) := by
  rw [readU32, if_neg (by rw [List.length_append]; exact Nat.not_lt.mpr (Nat.le_add_right 4 _)),
    getU32_put]

theorem lengthSub_of_le {a b : ℕ} (h : b ≤ a) : lengthSub a b = .ok (a - b) :=
  if_neg (Nat.not_lt.mpr h)

theorem slice_of_le {start stop : ℕ} {b : Buf} (hstart : start ≤ stop) (hstop : stop ≤ b.length) :
    slice start stop b = .ok ((b.drop start).take (stop - start)) :=
  if_neg (not_or.mpr ⟨Nat.not_lt.mpr hstart, Nat.not_lt.mpr hstop⟩)

theorem slice_to_end {start : ℕ} {b : Buf} (h : start ≤ b.length) :
    slice start b.length b = .ok (b.drop start) := by
  rw [slice_of_le h (Nat.le_refl _), ← List.length_drop, List.take_length]

/-! ## The readers -/

def MediaHeader.tryReadFrom (buf : Buf) : Except OutOfRange (Option (MediaHeader × Buf)) :=
  if buf.length < wireSize then .ok none
  else do
    let (version, buf) ← readU8 buf
    if version ≠ versionByte then .ok none
    else do
      let (flags, buf) ← readU8 buf
      let (mt, buf) ← readU8 buf
      match MediaType.fromWire mt with
      | none => .ok none
      | some mediaType => do
          let (cid, buf) ← readU8 buf
          match CodecId.fromWire cid with
          | none => .ok none
          | some codecId => do
              let (streamId, buf) ← readU8 buf
              let (fecRatio, buf) ← readU8 buf
              let (seq, buf) ← readU32 buf
              let (timestamp, buf) ← readU32 buf
              let (fecBlock, buf) ← readU16 buf
              .ok (some (⟨version, flags, mediaType, codecId, streamId, fecRatio, seq, timestamp,
                fecBlock⟩, buf))

def QualityReport.tryReadFrom (buf : Buf) : Except OutOfRange (Option (QualityReport × Buf)) :=
  if buf.length < wireSize then .ok none
  else do
    let (lossPct, buf) ← readU8 buf
    let (rtt4ms, buf) ← readU8 buf
    let (jitterMs, buf) ← readU8 buf
    let (bitrateCapKbps, buf) ← readU8 buf
    .ok (some (⟨lossPct, rtt4ms, jitterMs, bitrateCapKbps⟩, buf))

def MiniHeader.tryReadFrom (buf : Buf) : Except OutOfRange (Option (MiniHeader × Buf)) :=
  if buf.length < wireSize then .ok none
  else do
    let (seqDelta, buf) ← readU8 buf
    let (timestampDeltaMs, buf) ← readU16 buf
    let (payloadLen, buf) ← readU16 buf
    .ok (some (⟨seqDelta, timestampDeltaMs, payloadLen⟩, buf))

namespace MediaPacket

def tryFromBytes (data : Buf) : Except OutOfRange (Option MediaPacket) := do
  match ← MediaHeader.tryReadFrom data with
  | none => .ok none
  | some (header, _) =>
      let remaining ← lengthSub data.length MediaHeader.wireSize
      if header.hasQuality then
        if remaining < QualityReport.wireSize then .ok none
        else do
          let pl ← lengthSub remaining QualityReport.wireSize
          let qrStart := MediaHeader.wireSize + pl
          let trailer ← slice qrStart data.length data
          match ← QualityReport.tryReadFrom trailer with
          | none => .ok none
          | some (qr, _) => do
              let payload ← slice MediaHeader.wireSize (MediaHeader.wireSize + pl) data
              .ok (some ⟨header, payload, some qr⟩)
      else do
        let payload ← slice MediaHeader.wireSize (MediaHeader.wireSize + remaining) data
        .ok (some ⟨header, payload, none⟩)

def tryDecodeCompact (buf : Buf) (ctx : MiniFrameContext) :
    Except OutOfRange (Option MediaPacket × MiniFrameContext) :=
  if buf.isEmpty then .ok (none, ctx)
  else do
    let (frameType, rest) ← readU8 buf
    if frameType = frameTypeFull then do
      match ← tryFromBytes rest with
      | none => .ok (none, ctx)
      | some pkt => .ok (some pkt, ctx.update pkt.header)
    else if frameType = frameTypeMini then
      if rest.length < MiniHeader.wireSize then .ok (none, ctx)
      else do
        match ← MiniHeader.tryReadFrom rest with
        | none => .ok (none, ctx)
        | some (mini, _) =>
            let payloadStart := 1 + MiniHeader.wireSize
            let payloadEnd := payloadStart + mini.payloadLen.toNat
            if buf.length < payloadEnd then .ok (none, ctx)
            else do
              let payload ← slice payloadStart payloadEnd buf
              match ctx.expand mini with
              | none => .ok (none, ctx)
              | some (header, ctx) => .ok (some ⟨header, payload, none⟩, ctx)
    else .ok (none, ctx)

end MediaPacket

/-! ## No access fails -/

theorem MediaHeader.tryReadFrom_eq (buf : Buf) : tryReadFrom buf = .ok (readFrom buf) := by
  rw [tryReadFrom, readFrom]
  split
  · rfl
  next hlen =>
  obtain ⟨version, flags, mt, cid, streamId, fecRatio, seq, timestamp, fecBlock, buf, rfl⟩ :=
    exists_fields (Nat.le_of_not_lt hlen)
  simp only [readU8_cons, getU8_cons, readU32_put, getU32_put, readU16_put, getU16_put, bind,
    Except.bind]
  split
  · rfl
  · cases MediaType.fromWire mt with
    | none => rfl
    | some mediaType => cases CodecId.fromWire cid <;> rfl

theorem QualityReport.tryReadFrom_eq (buf : Buf) : tryReadFrom buf = .ok (readFrom buf) := by
  rw [tryReadFrom, readFrom]
  split
  · rfl
  next hlen =>
  have hlen : 4 ≤ buf.length := Nat.le_of_not_lt hlen
  obtain ⟨lossPct, buf, rfl⟩ := List.exists_cons_of_length_pos (by omega : 0 < buf.length)
  simp only [List.length_cons] at hlen
  obtain ⟨rtt4ms, buf, rfl⟩ := List.exists_cons_of_length_pos (by omega : 0 < buf.length)
  simp only [List.length_cons] at hlen
  obtain ⟨jitterMs, buf, rfl⟩ := List.exists_cons_of_length_pos (by omega : 0 < buf.length)
  simp only [List.length_cons] at hlen
  obtain ⟨bitrateCapKbps, buf, rfl⟩ := List.exists_cons_of_length_pos (by omega : 0 < buf.length)
  rfl

theorem MiniHeader.tryReadFrom_eq (buf : Buf) : tryReadFrom buf = .ok (readFrom buf) := by
  rw [tryReadFrom, readFrom]
  split
  · rfl
  next hlen =>
  have hlen : 5 ≤ buf.length := Nat.le_of_not_lt hlen
  obtain ⟨seqDelta, buf, rfl⟩ := List.exists_cons_of_length_pos (by omega : 0 < buf.length)
  simp only [List.length_cons] at hlen
  obtain ⟨timestampDeltaMs, buf, rfl⟩ := exists_putU16 (by omega : 2 ≤ buf.length)
  rw [List.length_append, show (putU16 timestampDeltaMs).length = 2 from rfl] at hlen
  obtain ⟨payloadLen, buf, rfl⟩ := exists_putU16 (by omega : 2 ≤ buf.length)
  simp only [readU8_cons, getU8_cons, readU16_put, getU16_put, bind, Except.bind]

/-- A header is read from what is at least as long. -/
theorem MediaHeader.readFrom_length {buf rest : Buf} {h : MediaHeader}
    (hread : readFrom buf = some (h, rest)) : wireSize ≤ buf.length := by
  rw [writeTo_of_readFrom hread, List.length_append, writeTo_length]
  exact Nat.le_add_right _ _

namespace MediaPacket

theorem tryFromBytes_eq (data : Buf) : tryFromBytes data = .ok (fromBytes data) := by
  rw [tryFromBytes, fromBytes, MediaHeader.tryReadFrom_eq]
  cases hread : MediaHeader.readFrom data with
  | none => rfl
  | some found =>
      obtain ⟨header, rest⟩ := found
      have hlen := MediaHeader.readFrom_length hread
      simp only [bind, Except.bind, Option.bind, lengthSub_of_le hlen]
      split
      · split
        · rfl
        next htrailer =>
          have htrailer := Nat.le_of_not_lt htrailer
          have hstart : MediaHeader.wireSize + (data.length - MediaHeader.wireSize -
              QualityReport.wireSize) ≤ data.length := by omega
          simp only [lengthSub_of_le htrailer, slice_to_end hstart, QualityReport.tryReadFrom_eq]
          cases QualityReport.readFrom (data.drop (MediaHeader.wireSize + (data.length -
              MediaHeader.wireSize - QualityReport.wireSize))) with
          | none => rfl
          | some report =>
              simp only [slice_of_le (Nat.le_add_right _ _) hstart, Nat.add_sub_cancel_left]
      · have hstop : MediaHeader.wireSize + (data.length - MediaHeader.wireSize) ≤ data.length := by
          omega
        simp only [slice_of_le (Nat.le_add_right _ _) hstop, Nat.add_sub_cancel_left]

/-- Decoding with checked accesses is decoding. -/
theorem tryDecodeCompact_eq (buf : Buf) (ctx : MiniFrameContext) :
    tryDecodeCompact buf ctx = .ok (decodeCompact buf ctx) := by
  cases buf with
  | nil => rfl
  | cons frameType rest =>
      rw [tryDecodeCompact, decodeCompact, List.isEmpty_cons, if_neg Bool.false_ne_true]
      simp only [readU8_cons, bind, Except.bind, tryFromBytes_eq, MiniHeader.tryReadFrom_eq]
      split
      · cases fromBytes rest <;> rfl
      split
      · split
        · rfl
        cases MiniHeader.readFrom rest with
        | none => rfl
        | some found =>
            dsimp only
            split
            · rfl
            next hend =>
              rw [slice_of_le (Nat.le_add_right _ _) (Nat.le_of_not_lt hend),
                Nat.add_sub_cancel_left]
              dsimp only
              cases ctx.expand found.1 <;> rfl
      · rfl

/-- Without a packet the context stays. -/
theorem decodeCompact_none {buf : Buf} {ctx : MiniFrameContext}
    (h : (decodeCompact buf ctx).1 = none) : (decodeCompact buf ctx).2 = ctx := by
  unfold decodeCompact at h ⊢
  cases buf with
  | nil => rfl
  | cons frameType rest =>
      simp only at h ⊢
      split_ifs at h ⊢
      · cases hp : fromBytes rest with
        | none => rfl
        | some pkt =>
            rw [hp] at h
            cases h
      · rfl
      · cases hm : MiniHeader.readFrom rest with
        | none => rfl
        | some m =>
            simp only [hm] at h ⊢
            split_ifs at h ⊢
            · rfl
            · cases hexpand : ctx.expand m.1 with
              | none => rfl
              | some found =>
                  rw [hexpand] at h
                  cases h
      · rfl

/-- Decoding returns whatever the bytes are. Without a packet the context stays as it was, and
with one its header is the baseline. -/
theorem tryDecodeCompact_atomic (buf : Buf) (ctx : MiniFrameContext) :
    ∃ packet after, tryDecodeCompact buf ctx = .ok (packet, after) ∧
      (packet = none → after = ctx) ∧ ∀ p, packet = some p → after.last = some p.header := by
  refine ⟨(decodeCompact buf ctx).1, (decodeCompact buf ctx).2, tryDecodeCompact_eq buf ctx,
    decodeCompact_none, fun p hp => ?_⟩
  rw [decodeCompact_some hp]

end MediaPacket
end Wzp.Proto
