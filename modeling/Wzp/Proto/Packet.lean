import Wzp.Lib.Bytes
import Wzp.Proto.Media

/-!
# Media packets on the wire

The 16-byte v2 header, the optional 4-byte quality trailer and the packet that
holds both. Lengths are checked before any byte is read, as in the source.
-/
namespace Wzp.Proto
open Bytes

/-- The v2 media header; `timestamp` is in milliseconds since session start. -/
structure MediaHeader where
  version : UInt8
  flags : UInt8
  mediaType : MediaType
  codecId : CodecId
  streamId : UInt8
  fecRatio : UInt8
  seq : UInt32
  timestamp : UInt32
  fecBlock : UInt16
  deriving DecidableEq, Repr

namespace MediaHeader

def wireSize : Nat := 16
def versionByte : UInt8 := 2

def flagRepair : UInt8 := 0b10000000
def flagQuality : UInt8 := 0b01000000

def hasQuality (h : MediaHeader) : Bool := h.flags &&& flagQuality != 0

/-- The bytes the header appends to a buffer. -/
def writeTo (h : MediaHeader) : Buf :=
  [h.version, h.flags, h.mediaType.toWire, h.codecId.toWire, h.streamId, h.fecRatio] ++
    (putU32 h.seq ++ (putU32 h.timestamp ++ putU16 h.fecBlock))

/-- Read one header and return the bytes behind it. -/
def readFrom (buf : Buf) : Option (MediaHeader × Buf) :=
  if buf.length < wireSize then none
  else
    let (version, buf) := getU8 buf
    if version ≠ versionByte then none
    else do
      let (flags, buf) := getU8 buf
      let (mt, buf) := getU8 buf
      let mediaType ← MediaType.fromWire mt
      let (cid, buf) := getU8 buf
      let codecId ← CodecId.fromWire cid
      let (streamId, buf) := getU8 buf
      let (fecRatio, buf) := getU8 buf
      let (seq, buf) := getU32 buf
      let (timestamp, buf) := getU32 buf
      let (fecBlock, buf) := getU16 buf
      some (⟨version, flags, mediaType, codecId, streamId, fecRatio, seq, timestamp, fecBlock⟩, buf)

@[simp] theorem writeTo_length (h : MediaHeader) : h.writeTo.length = wireSize := rfl

theorem readFrom_writeTo {h : MediaHeader} (hv : h.version = versionByte) (rest : Buf) :
    readFrom (h.writeTo ++ rest) = some (h, rest) := by
  have hlen : ¬ (h.writeTo ++ rest).length < wireSize := by simp
  rw [readFrom, if_neg hlen]
  simp only [writeTo, List.append_assoc, List.cons_append, List.nil_append, getU8_cons, hv,
    ne_eq, not_true_eq_false, if_false, MediaType.fromWire_toWire, CodecId.fromWire_toWire,
    getU32_put, getU16_put, Option.bind_eq_bind, Option.bind_some]
  rw [← hv]

theorem readFrom_other_version {h : MediaHeader} (hv : h.version ≠ versionByte) (rest : Buf) :
    readFrom (h.writeTo ++ rest) = none := by
  have hlen : ¬ (h.writeTo ++ rest).length < wireSize := by simp
  rw [readFrom, if_neg hlen]
  simp only [writeTo, List.cons_append, getU8_cons, ne_eq, hv, not_false_eq_true, if_true]

/-- Only version 2 is ever read. -/
theorem readFrom_version {buf rest : Buf} {h : MediaHeader}
    (hread : readFrom buf = some (h, rest)) : h.version = versionByte := by
  simp only [readFrom] at hread
  split at hread
  · exact nomatch hread
  · split at hread
    · exact nomatch hread
    · rename_i hv
      simp only [Option.bind_eq_bind, Option.bind_eq_some_iff, Option.some.injEq,
        Prod.mk.injEq] at hread
      obtain ⟨_, _, _, _, rfl, _⟩ := hread
      exact not_not.mp hv

/-- A long enough buffer begins with the fields of a header. -/
theorem exists_fields {buf : Buf} (hlen : 16 ≤ buf.length) :
    ∃ version flags mt cid streamId fecRatio seq timestamp fecBlock rest,
      buf = version :: flags :: mt :: cid :: streamId :: fecRatio ::
        (putU32 seq ++ (putU32 timestamp ++ (putU16 fecBlock ++ rest))) := by
  obtain ⟨version, buf, rfl⟩ := List.exists_cons_of_length_pos (by omega : 0 < buf.length)
  simp only [List.length_cons] at hlen
  obtain ⟨flags, buf, rfl⟩ := List.exists_cons_of_length_pos (by omega : 0 < buf.length)
  simp only [List.length_cons] at hlen
  obtain ⟨mt, buf, rfl⟩ := List.exists_cons_of_length_pos (by omega : 0 < buf.length)
  simp only [List.length_cons] at hlen
  obtain ⟨cid, buf, rfl⟩ := List.exists_cons_of_length_pos (by omega : 0 < buf.length)
  simp only [List.length_cons] at hlen
  obtain ⟨streamId, buf, rfl⟩ := List.exists_cons_of_length_pos (by omega : 0 < buf.length)
  simp only [List.length_cons] at hlen
  obtain ⟨fecRatio, buf, rfl⟩ := List.exists_cons_of_length_pos (by omega : 0 < buf.length)
  simp only [List.length_cons] at hlen
  obtain ⟨seq, buf, rfl⟩ := exists_putU32 (by omega : 4 ≤ buf.length)
  rw [List.length_append, show (putU32 seq).length = 4 from rfl] at hlen
  obtain ⟨timestamp, buf, rfl⟩ := exists_putU32 (by omega : 4 ≤ buf.length)
  rw [List.length_append, show (putU32 timestamp).length = 4 from rfl] at hlen
  obtain ⟨fecBlock, buf, rfl⟩ := exists_putU16 (by omega : 2 ≤ buf.length)
  exact ⟨version, flags, mt, cid, streamId, fecRatio, seq, timestamp, fecBlock, buf, rfl⟩

/-- What is read is what was written there. -/
theorem writeTo_of_readFrom {buf rest : Buf} {h : MediaHeader}
    (hread : readFrom buf = some (h, rest)) : buf = h.writeTo ++ rest := by
  rw [readFrom] at hread
  split at hread
  · exact nomatch hread
  next hlen =>
  obtain ⟨version, flags, mt, cid, streamId, fecRatio, seq, timestamp, fecBlock, buf, rfl⟩ :=
    exists_fields (Nat.le_of_not_lt hlen)
  simp only [getU8_cons, getU32_put, getU16_put] at hread
  split at hread
  · exact nomatch hread
  simp only [Option.bind_eq_bind, Option.bind_eq_some_iff, Option.some.injEq,
    Prod.mk.injEq] at hread
  obtain ⟨mediaType, hmt, codecId, hcid, rfl, rfl⟩ := hread
  rw [← MediaType.toWire_of_fromWire hmt, ← CodecId.toWire_of_fromWire hcid]
  simp only [writeTo, List.append_assoc, List.cons_append, List.nil_append]

end MediaHeader

structure QualityReport where
  lossPct : UInt8
  rtt4ms : UInt8
  jitterMs : UInt8
  bitrateCapKbps : UInt8
  deriving DecidableEq, Repr

namespace QualityReport

def wireSize : Nat := 4

def writeTo (q : QualityReport) : Buf := [q.lossPct, q.rtt4ms, q.jitterMs, q.bitrateCapKbps]

def readFrom (buf : Buf) : Option (QualityReport × Buf) :=
  if buf.length < wireSize then none
  else
    let (lossPct, buf) := getU8 buf
    let (rtt4ms, buf) := getU8 buf
    let (jitterMs, buf) := getU8 buf
    let (bitrateCapKbps, buf) := getU8 buf
    some (⟨lossPct, rtt4ms, jitterMs, bitrateCapKbps⟩, buf)

@[simp] theorem writeTo_length (q : QualityReport) : q.writeTo.length = wireSize := rfl

@[simp] theorem readFrom_writeTo (q : QualityReport) (rest : Buf) :
    readFrom (q.writeTo ++ rest) = some (q, rest) := by
  have hlen : ¬ (q.writeTo ++ rest).length < wireSize := by simp
  rw [readFrom, if_neg hlen]
  simp only [writeTo, List.cons_append, List.nil_append, getU8_cons]

/-- Four bytes are a report. -/
theorem exists_writeTo {buf : Buf} (h : buf.length = wireSize) :
    ∃ q : QualityReport, buf = q.writeTo := by
  obtain ⟨lossPct, rtt4ms, jitterMs, bitrateCapKbps, rfl⟩ := List.length_eq_four.mp h
  exact ⟨⟨lossPct, rtt4ms, jitterMs, bitrateCapKbps⟩, rfl⟩

end QualityReport

structure MediaPacket where
  header : MediaHeader
  payload : Buf
  qualityReport : Option QualityReport
  deriving DecidableEq, Repr

namespace MediaPacket

/-- The trailer bytes of an optional report. -/
def trailer : Option QualityReport → Buf
  | some qr => qr.writeTo
  | none => []

def toBytes (p : MediaPacket) : Buf := p.header.writeTo ++ (p.payload ++ trailer p.qualityReport)

/-- The payload length follows from the buffer length and the quality flag. -/
def fromBytes (data : Buf) : Option MediaPacket := do
  let (header, _) ← MediaHeader.readFrom data
  let remaining := data.length - MediaHeader.wireSize
  let (payloadLen, qualityReport) ←
    if header.hasQuality then
      if remaining < QualityReport.wireSize then none
      else do
        let pl := remaining - QualityReport.wireSize
        let qrStart := MediaHeader.wireSize + pl
        let (qr, _) ← QualityReport.readFrom (data.drop qrStart)
        some (pl, some qr)
    else some (remaining, none)
  some ⟨header, (data.drop MediaHeader.wireSize).take payloadLen, qualityReport⟩

/-- Version 2, and a report exactly when the header announces one. -/
structure WellFormed (p : MediaPacket) : Prop where
  version : p.header.version = MediaHeader.versionByte
  quality : p.qualityReport.isSome = p.header.hasQuality

theorem fromBytes_other_version {h : MediaHeader} (hv : h.version ≠ MediaHeader.versionByte)
    (body : Buf) : fromBytes (h.writeTo ++ body) = none := by
  simp only [fromBytes, MediaHeader.readFrom_other_version hv, Option.bind_eq_bind,
    Option.bind_none]

theorem fromBytes_plain {h : MediaHeader} (hv : h.version = MediaHeader.versionByte)
    (hq : h.hasQuality = false) (body : Buf) :
    fromBytes (h.writeTo ++ body) = some ⟨h, body, none⟩ := by
  have hdrop : (h.writeTo ++ body).drop MediaHeader.wireSize = body :=
    List.drop_left' h.writeTo_length
  have hrem : (h.writeTo ++ body).length - MediaHeader.wireSize = body.length := by
    simp only [List.length_append, MediaHeader.writeTo_length, Nat.add_sub_cancel_left]
  simp only [fromBytes, MediaHeader.readFrom_writeTo hv, Option.bind_eq_bind, Option.bind_some, hq,
    Bool.false_eq_true, if_false, hdrop, hrem, List.take_length]

theorem fromBytes_quality {h : MediaHeader} (hv : h.version = MediaHeader.versionByte)
    (hq : h.hasQuality = true) (body : Buf) (qr : QualityReport) :
    fromBytes (h.writeTo ++ (body ++ qr.writeTo)) = some ⟨h, body, some qr⟩ := by
  have hdrop : (h.writeTo ++ (body ++ qr.writeTo)).drop MediaHeader.wireSize =
      body ++ qr.writeTo := List.drop_left' h.writeTo_length
  have hrem : (h.writeTo ++ (body ++ qr.writeTo)).length - MediaHeader.wireSize =
      body.length + QualityReport.wireSize := by
    simp only [List.length_append, MediaHeader.writeTo_length, QualityReport.writeTo_length,
      Nat.add_sub_cancel_left]
  have hshort : ¬ body.length + QualityReport.wireSize < QualityReport.wireSize := by omega
  have htail : (h.writeTo ++ (body ++ qr.writeTo)).drop (MediaHeader.wireSize + body.length) =
      qr.writeTo := by
    rw [← List.drop_drop, hdrop, List.drop_left]
  have hread : QualityReport.readFrom qr.writeTo = some (qr, []) := by
    simpa only [List.append_nil] using QualityReport.readFrom_writeTo qr []
  simp only [fromBytes, MediaHeader.readFrom_writeTo hv, Option.bind_eq_bind, Option.bind_some, hq,
    if_true, hrem, if_neg hshort, Nat.add_sub_cancel, htail, hread, hdrop, List.take_left]

/-- Whatever the body is, an accepted packet carries the header that was written. -/
theorem fromBytes_header {h : MediaHeader} {body : Buf} {p : MediaPacket}
    (hp : fromBytes (h.writeTo ++ body) = some p) : p.header = h := by
  by_cases hv : h.version = MediaHeader.versionByte
  · rw [fromBytes, MediaHeader.readFrom_writeTo hv] at hp
    simp only [Option.bind_eq_bind, Option.bind_some] at hp
    split_ifs at hp with hq hs
    · cases hp
    · obtain ⟨report, _, hsome⟩ := Option.bind_eq_some_iff.mp hp
      exact congrArg MediaPacket.header (Option.some.inj hsome).symm
    · exact congrArg MediaPacket.header (Option.some.inj hp).symm
  · rw [fromBytes_other_version hv] at hp
    cases hp

/-- Every packet that is read from the wire is well formed. -/
theorem fromBytes_wellFormed {data : Buf} {p : MediaPacket} (h : fromBytes data = some p) :
    p.WellFormed := by
  rw [fromBytes] at h
  simp only [Option.bind_eq_bind] at h
  obtain ⟨⟨header, rest⟩, hread, hbody⟩ := Option.bind_eq_some_iff.mp h
  have hv := MediaHeader.readFrom_version hread
  simp only at hbody
  split_ifs at hbody with hq hs
  · exact nomatch hbody
  · obtain ⟨report, _, hp⟩ := Option.bind_eq_some_iff.mp hbody
    obtain rfl := Option.some.inj hp
    exact ⟨hv, hq.symm⟩
  · obtain rfl := Option.some.inj hbody
    exact ⟨hv, ((Bool.not_eq_true _).mp hq).symm⟩

theorem fromBytes_toBytes {p : MediaPacket} (h : p.WellFormed) : fromBytes p.toBytes = some p := by
  obtain ⟨header, payload, report⟩ := p
  cases report with
  | none =>
      have hq : header.hasQuality = false := h.quality.symm
      simpa only [toBytes, trailer, List.append_nil] using fromBytes_plain h.version hq payload
  | some qr =>
      have hq : header.hasQuality = true := h.quality.symm
      exact fromBytes_quality h.version hq payload qr

theorem toBytes_of_fromBytes {data : Buf} {p : MediaPacket} (h : fromBytes data = some p) :
    p.toBytes = data := by
  have hwf := fromBytes_wellFormed h
  have hread := h
  rw [fromBytes] at hread
  obtain ⟨⟨header, body⟩, hread, -⟩ := Option.bind_eq_some_iff.mp hread
  have hv := MediaHeader.readFrom_version hread
  obtain rfl := MediaHeader.writeTo_of_readFrom hread
  cases hq : header.hasQuality with
  | false =>
      rw [fromBytes_plain hv hq] at h
      obtain rfl := Option.some.inj h
      rw [toBytes, trailer, List.append_nil]
  | true =>
      -- the last four bytes are the report
      have hshort : QualityReport.wireSize ≤ body.length := by
        by_contra hlt
        simp only [fromBytes, hread, Option.bind_eq_bind, Option.bind_some, hq, if_true,
          List.length_append, MediaHeader.writeTo_length, Nat.add_sub_cancel_left,
          if_pos (Nat.lt_of_not_le hlt), Option.bind_none] at h
        exact nomatch h
      have htail : (body.drop (body.length - QualityReport.wireSize)).length =
          QualityReport.wireSize := by
        rw [List.length_drop]
        omega
      obtain ⟨qr, hqr⟩ := QualityReport.exists_writeTo htail
      have hbody := List.take_append_drop (body.length - QualityReport.wireSize) body
      rw [hqr] at hbody
      rw [← hbody, fromBytes_quality hv hq] at h
      obtain rfl := Option.some.inj h
      rw [toBytes, trailer, hbody]

/-- The valid packets and their bytes are in one to one correspondence. -/
theorem fromBytes_eq_some_iff (data : Buf) (p : MediaPacket) :
    fromBytes data = some p ↔ p.WellFormed ∧ p.toBytes = data := by
  constructor
  · intro h
    exact ⟨fromBytes_wellFormed h, toBytes_of_fromBytes h⟩
  · rintro ⟨hwf, rfl⟩
    exact fromBytes_toBytes hwf

end MediaPacket
end Wzp.Proto
