import Wzp.Proto.Packet

/-!
# Compact framing

Full frames carry a whole header and mini frames a delta against the header
kept in a context. The encoder picks the frame kind from a counter alone, and
both sides move their context with every frame they handle.
-/
namespace Wzp.Proto
open Bytes

def miniFrameFullInterval : UInt32 := 50

def frameTypeFull : UInt8 := 0x00
def frameTypeMini : UInt8 := 0x01

structure MiniHeader where
  seqDelta : UInt8
  timestampDeltaMs : UInt16
  payloadLen : UInt16
  deriving DecidableEq, Repr

namespace MiniHeader

def wireSize : Nat := 5

def writeTo (m : MiniHeader) : Buf := [m.seqDelta] ++ (putU16 m.timestampDeltaMs ++ putU16 m.payloadLen)

def readFrom (buf : Buf) : Option (MiniHeader × Buf) :=
  if buf.length < wireSize then none
  else
    let (seqDelta, buf) := getU8 buf
    let (timestampDeltaMs, buf) := getU16 buf
    let (payloadLen, buf) := getU16 buf
    some (⟨seqDelta, timestampDeltaMs, payloadLen⟩, buf)

@[simp] theorem writeTo_length (m : MiniHeader) : m.writeTo.length = wireSize := rfl

@[simp] theorem readFrom_writeTo (m : MiniHeader) (rest : Buf) :
    readFrom (m.writeTo ++ rest) = some (m, rest) := by
  have hlen : ¬ (m.writeTo ++ rest).length < wireSize := by simp
  rw [readFrom, if_neg hlen]
  simp only [writeTo, List.append_assoc, List.cons_append, List.nil_append, getU8_cons, getU16_put]

end MiniHeader

/-- The header the next delta is taken against, if there is one yet. -/
structure MiniFrameContext where
  last : Option MediaHeader := none
  deriving DecidableEq, Repr

namespace MiniFrameContext

def update (_ : MiniFrameContext) (h : MediaHeader) : MiniFrameContext := ⟨some h⟩

/-- The header a delta stands for over a given baseline. -/
def applyDelta (base : MediaHeader) (m : MiniHeader) : MediaHeader :=
  { base with
    seq := base.seq + m.seqDelta.toUInt32
    timestamp := base.timestamp + m.timestampDeltaMs.toUInt32 }

def expand (ctx : MiniFrameContext) (m : MiniHeader) : Option (MediaHeader × MiniFrameContext) :=
  ctx.last.map fun base => (applyDelta base m, ⟨some (applyDelta base m)⟩)

end MiniFrameContext

namespace MediaPacket

/-- The delta of the mini branch: the sequence step is the constant one, the
timestamp step and the payload length are truncated to 16 bits. -/
def miniHeader (p : MediaPacket) (base : MediaHeader) : MiniHeader :=
  { seqDelta := 1
    timestampDeltaMs := (p.header.timestamp - base.timestamp).toUInt16
    payloadLen := UInt16.ofNat p.payload.length }

def miniFrame (p : MediaPacket) (base : MediaHeader) : Buf :=
  frameTypeMini :: ((p.miniHeader base).writeTo ++ p.payload)

def fullFrame (p : MediaPacket) : Buf := frameTypeFull :: p.toBytes

/-- One datagram, with the context and the frame counter after it. -/
def encodeCompact (p : MediaPacket) (ctx : MiniFrameContext) (framesSinceFull : UInt32) :
    Buf × MiniFrameContext × UInt32 :=
  let full := (p.fullFrame, ctx.update p.header, 1)
  if 0 < framesSinceFull ∧ framesSinceFull < miniFrameFullInterval then
    match ctx.last with
    | some base => (p.miniFrame base, ctx.update p.header, framesSinceFull + 1)
    | none => full
  else full

/-- One received datagram; the context only moves when a packet comes out. -/
def decodeCompact (buf : Buf) (ctx : MiniFrameContext) : Option MediaPacket × MiniFrameContext :=
  match buf with
  | [] => (none, ctx)
  | frameType :: rest =>
      if frameType = frameTypeFull then
        match fromBytes rest with
        | none => (none, ctx)
        | some pkt => (some pkt, ctx.update pkt.header)
      else if frameType = frameTypeMini then
        if rest.length < MiniHeader.wireSize then (none, ctx)
        else
          match MiniHeader.readFrom rest with
          | none => (none, ctx)
          | some (mini, _) =>
              let payloadStart := 1 + MiniHeader.wireSize
              let payloadEnd := payloadStart + mini.payloadLen.toNat
              if buf.length < payloadEnd then (none, ctx)
              else
                let payload := (buf.drop payloadStart).take mini.payloadLen.toNat
                match ctx.expand mini with
                | none => (none, ctx)
                | some (header, ctx') => (some ⟨header, payload, none⟩, ctx')
      else (none, ctx)

theorem decodeCompact_full (p : MediaPacket) (ctx : MiniFrameContext) :
    decodeCompact p.fullFrame ctx =
      match fromBytes p.toBytes with
      | none => (none, ctx)
      | some pkt => (some pkt, ctx.update pkt.header) := rfl

/-- A mini frame is refused without a baseline; over one it always decodes,
whichever header the baseline is. -/
theorem decodeCompact_mini (p : MediaPacket) (base : MediaHeader) (ctx : MiniFrameContext) :
    decodeCompact (p.miniFrame base) ctx =
      match ctx.last with
      | none => (none, ctx)
      | some b =>
          (some ⟨MiniFrameContext.applyDelta b (p.miniHeader base),
            p.payload.take (p.miniHeader base).payloadLen.toNat, none⟩,
            ⟨some (MiniFrameContext.applyDelta b (p.miniHeader base))⟩) := by
  have hlen : ¬ ((p.miniHeader base).writeTo ++ p.payload).length < MiniHeader.wireSize := by simp
  have hfits : (p.miniHeader base).payloadLen.toNat ≤ p.payload.length := by
    simp only [miniHeader, UInt16.toNat_ofNat']
    exact Nat.mod_le _ _
  have hend : ¬ (frameTypeMini :: ((p.miniHeader base).writeTo ++ p.payload)).length <
      1 + MiniHeader.wireSize + (p.miniHeader base).payloadLen.toNat := by
    simp only [List.length_cons, List.length_append, MiniHeader.writeTo_length]
    omega
  have hdrop : (frameTypeMini :: ((p.miniHeader base).writeTo ++ p.payload)).drop
      (1 + MiniHeader.wireSize) = p.payload := by
    rw [Nat.add_comm, List.drop_succ_cons]
    exact List.drop_left' (MiniHeader.writeTo_length _)
  have htype : ¬ frameTypeMini = frameTypeFull := by decide
  simp only [decodeCompact, miniFrame, htype, if_false, if_true, hlen, MiniHeader.readFrom_writeTo,
    hend, hdrop, MiniFrameContext.expand]
  cases ctx.last <;> rfl

/-- Whenever a packet comes out, its header is the new baseline. -/
theorem decodeCompact_some {buf : Buf} {ctx : MiniFrameContext} {p : MediaPacket}
    (h : (decodeCompact buf ctx).1 = some p) : (decodeCompact buf ctx).2 = ⟨some p.header⟩ := by
  unfold decodeCompact at h ⊢
  cases buf with
  | nil => cases h
  | cons frameType rest =>
      simp only at h ⊢
      split_ifs at h ⊢
      · cases hp : fromBytes rest with
        | none => simp only [hp] at h; cases h
        | some pkt =>
            simp only [hp, Option.some.injEq] at h
            subst h
            rfl
      · cases hm : MiniHeader.readFrom rest with
        | none => simp only [hm] at h; cases h
        | some m =>
            simp only [hm] at h ⊢
            split_ifs at h ⊢
            cases hl : ctx.last with
            | none => simp only [MiniFrameContext.expand, hl, Option.map_none] at h; cases h
            | some base =>
                simp only [MiniFrameContext.expand, hl, Option.map_some, Option.some.injEq] at h ⊢
                subst h
                rfl

/-- The next header of a steady stream: same fields, one sequence number on,
and a timestamp step that fits the 16-bit delta. -/
structure Continues (base h : MediaHeader) : Prop where
  fields : h = { base with seq := base.seq + 1, timestamp := h.timestamp }
  step : (h.timestamp - base.timestamp).toNat < 2 ^ 16

end MediaPacket
end Wzp.Proto
