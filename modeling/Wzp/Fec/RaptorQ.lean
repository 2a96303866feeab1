import Mathlib.Algebra.Group.Nat.Defs
import Mathlib.Data.List.Dedup
import Mathlib.Data.List.Perm.Subperm
import Mathlib.Data.List.Range
import Mathlib.Logic.Function.Basic
import Mathlib.Tactic.Common
import Wzp.Proto.Profile

/-!
# FEC blocks

The encoder collects the frames of a block, prefixes and pads them to symbols
and has the fountain code make repair symbols. The decoder collects symbols by
block and asks the fountain code for the frames.
-/
namespace Wzp.Fec
open Bytes Proto

/-- A symbol as the fountain code takes and gives it. -/
structure EncodingPacket where
  sourceBlockNumber : UInt8
  encodingSymbolId : ℕ
  data : Buf
  deriving DecidableEq, Repr

/-- The fountain code library: repair symbols of a block, and the block from
symbols. Both know the length of the block and of a symbol. -/
structure RaptorQ where
  repairPackets : UInt8 → UInt16 → Buf → (start count : ℕ) → List EncodingPacket
  decode : UInt8 → UInt16 → (blockLength : ℕ) → List EncodingPacket → Option Buf

/-- The first symbol received with a number; later ones are ignored. -/
def symbolAt (packets : List EncodingPacket) (esi : ℕ) : Option Buf :=
  (packets.find? fun p => p.encodingSymbolId = esi).map (·.data)

/-- What is known of the library. It makes the repair symbols it is asked for,
does not decode a block of `k` symbols from fewer than `k` different ones, and
returns the source symbols themselves once it has them all. -/
structure RaptorQ.Documented (rq : RaptorQ) : Prop where
  repairCount : ∀ block symbolSize data start count,
    (rq.repairPackets block symbolSize data start count).length = count
  tooFew : ∀ block (symbolSize : UInt16) k packets, 0 < symbolSize.toNat →
    (packets.map EncodingPacket.encodingSymbolId).dedup.length < k →
      rq.decode block symbolSize (k * symbolSize.toNat) packets = none
  systematic : ∀ block (symbolSize : UInt16) packets (symbols : List Buf), 0 < symbolSize.toNat →
    (∀ i (h : i < symbols.length), symbolAt packets i = some symbols[i]) →
    (∀ symbol ∈ symbols, symbol.length = symbolSize.toNat) →
      rq.decode block symbolSize (symbols.length * symbolSize.toNat) packets = some symbols.flatten

/-- The symbol of a block at a place. -/
def sourceSlice (data : Buf) (symbolSize : UInt16) (i : ℕ) : Buf :=
  (data.drop (i * symbolSize.toNat)).take symbolSize.toNat

def xorSymbols (a b : Buf) : Buf := List.zipWith (· ^^^ ·) a b

/-- The sum of the symbols of a block. -/
def paritySum (data : Buf) (symbolSize : UInt16) (k : ℕ) : Buf :=
  ((List.range k).map (sourceSlice data symbolSize)).foldl xorSymbols
    (List.replicate symbolSize.toNat 0)

/-- A small fountain code: every repair symbol is the sum of the source symbols, which
makes up for one that is lost. -/
def RaptorQ.parity : RaptorQ where
  repairPackets block symbolSize data start count :=
    let sum := paritySum data symbolSize (data.length / symbolSize.toNat)
    (List.range count).map fun i => ⟨block, start + i, sum⟩
  decode _ symbolSize blockLength packets :=
    let k := blockLength / symbolSize.toNat
    match (List.range k).filter fun i => (symbolAt packets i).isNone with
    | [] => some ((List.range k).flatMap fun i => (symbolAt packets i).getD [])
    | [lost] => (packets.find? fun p => k ≤ p.encodingSymbolId).map fun repair =>
        let found := ((List.range k).erase lost).foldl
          (fun sum i => xorSymbols sum ((symbolAt packets i).getD [])) repair.data
        (List.range k).flatMap fun i => (symbolAt packets i).getD found
    | _ => none

theorem symbolAt_isSome {packets : List EncodingPacket} {esi : ℕ} :
    (symbolAt packets esi).isSome ↔ esi ∈ packets.map EncodingPacket.encodingSymbolId := by
  simp only [symbolAt, Option.isSome_map, List.find?_isSome, decide_eq_true_eq, List.mem_map]

/-- The different numbers that have come are the source symbols that are not missing, and
those of repair symbols. -/
theorem length_distinct (packets : List EncodingPacket) (k : ℕ) :
    (packets.map EncodingPacket.encodingSymbolId).dedup.length +
        ((List.range k).filter fun i => (symbolAt packets i).isNone).length =
      k + ((packets.map EncodingPacket.encodingSymbolId).dedup.filter fun i => k ≤ i).length := by
  have hsource : ((packets.map EncodingPacket.encodingSymbolId).dedup.filter fun i => !decide (k ≤ i)).Perm
      ((List.range k).filter fun i => !(symbolAt packets i).isNone) := by
    refine (List.perm_ext_iff_of_nodup ((List.nodup_dedup _).filter _)
      (List.nodup_range.filter _)).mpr fun i => ?_
    rw [List.mem_filter, List.mem_filter, List.mem_dedup, ← symbolAt_isSome, List.mem_range,
      Option.not_isNone, Bool.not_eq_true', decide_eq_false_iff_not, Nat.not_le]
    exact And.comm
  have hhere := List.length_eq_length_filter_add (l := (packets.map EncodingPacket.encodingSymbolId).dedup)
    fun i => decide (k ≤ i)
  have hrange := List.length_eq_length_filter_add (l := List.range k)
    fun i => (symbolAt packets i).isNone
  have hlength := hsource.length_eq
  rw [List.length_range] at hrange
  omega

/-- Whether there is a repair symbol. -/
theorem find?_repair_eq_none {packets : List EncodingPacket} {k : ℕ} :
    packets.find? (fun p => k ≤ p.encodingSymbolId) = none ↔
      ((packets.map EncodingPacket.encodingSymbolId).dedup.filter fun i => k ≤ i).length = 0 := by
  rw [List.length_eq_zero_iff, List.find?_eq_none, List.filter_eq_nil_iff]
  simp only [List.mem_dedup, List.forall_mem_map]

theorem RaptorQ.parity_documented : parity.Documented := by
  constructor
  · intro block symbolSize data start count
    simp only [parity, List.length_map, List.length_range]
  · intro block symbolSize k packets hpos hfew
    have hlength := length_distinct packets k
    simp only [parity, Nat.mul_div_cancel _ hpos]
    split
    · rename_i hnone
      rw [hnone, List.length_nil] at hlength
      omega
    · rename_i lost hlost
      rw [hlost, List.length_singleton] at hlength
      rw [find?_repair_eq_none.mpr (by omega), Option.map_none]
    · rfl
  · intro block symbolSize packets symbols hpos hall _
    have hnone : ((List.range symbols.length).filter fun i => (symbolAt packets i).isNone) = [] := by
      refine List.filter_eq_nil_iff.mpr fun i hi => ?_
      rw [hall i (List.mem_range.mp hi)]
      exact Bool.false_ne_true
    have hmap : ((List.range symbols.length).map fun i => (symbolAt packets i).getD []) = symbols := by
      apply List.ext_getElem
      · simp only [List.length_map, List.length_range]
      · intro i _ hi
        simp only [List.getElem_map, List.getElem_range, hall i hi, Option.getD_some]
    simp only [parity, Nat.mul_div_cancel _ hpos, hnone]
    rw [List.flatMap_def, hmap]

inductive FecError where
  | blockFull (max : ℕ)
  deriving DecidableEq, Repr

def lenPrefix : ℕ := 2

/-- A frame with its length in front, zero-padded to a symbol. -/
def prefixed (symbolSize : UInt16) (sym : Buf) : Buf :=
  let payloadLen := min sym.length (symbolSize.toNat - lenPrefix)
  let slot := digit payloadLen 0 :: digit payloadLen 1 :: sym.take payloadLen
  slot ++ List.replicate (symbolSize.toNat - slot.length) 0

structure RaptorQFecEncoder where
  blockId : UInt16
  framesPerBlock : ℕ
  sourceSymbols : List Buf
  symbolSize : UInt16
  hasKeyframe : Bool
  keyframeRatio : Float32

namespace RaptorQFecEncoder

def new (framesPerBlock : ℕ) (symbolSize : UInt16) : RaptorQFecEncoder :=
  ⟨0, framesPerBlock, [], symbolSize, false, 0⟩

def setKeyframeRatio (enc : RaptorQFecEncoder) (keyframeRatio : Float32) : RaptorQFecEncoder :=
  { enc with keyframeRatio := max keyframeRatio 0 }

def buildBlockData (enc : RaptorQFecEncoder) : Buf :=
  enc.sourceSymbols.flatMap (prefixed enc.symbolSize)

def addSourceSymbol (enc : RaptorQFecEncoder) (data : Buf) : Except FecError RaptorQFecEncoder :=
  if enc.framesPerBlock ≤ enc.sourceSymbols.length then .error (.blockFull enc.framesPerBlock)
  else .ok { enc with sourceSymbols := enc.sourceSymbols ++ [data] }

/-- The number rounded up to 32 bits, as `ceil` and the conversion after it do;
the `ceil` of the library does not evaluate. -/
def ceilU32 (x : Float32) : ℕ :=
  let t := x.toUInt32.toNat
  if Float32.ofNat t < x then min (t + 1) (2 ^ 32 - 1) else t

/-- The number of repair symbols for a ratio, computed in single precision. -/
def numRepair (numSource : ℕ) (ratio : Float32) : ℕ := ceilU32 (Float32.ofNat numSource * ratio)

def effectiveRatio (enc : RaptorQFecEncoder) (ratio : Float32) : Float32 :=
  if enc.hasKeyframe && enc.keyframeRatio > 0 then enc.keyframeRatio else ratio

/-- The repair symbols and their numbers, which go on where the frames end. -/
def generateRepair (enc : RaptorQFecEncoder) (rq : RaptorQ) (ratio : Float32) :
    List (UInt16 × Buf) :=
  let numSource := enc.sourceSymbols.length
  let count := numRepair numSource (enc.effectiveRatio ratio)
  if numSource = 0 ∨ count = 0 then []
  else
    let packets := rq.repairPackets enc.blockId.toUInt8 enc.symbolSize enc.buildBlockData 0 count
    packets.zipIdx.map fun (pkt, i) => (UInt16.ofNat numSource + UInt16.ofNat i, pkt.data)

def finalizeBlock (enc : RaptorQFecEncoder) : RaptorQFecEncoder :=
  { enc with blockId := enc.blockId + 1, sourceSymbols := [], hasKeyframe := false }

end RaptorQFecEncoder

/-- FEC parameters of a quality profile. -/
structure AdaptiveFec where
  framesPerBlock : ℕ
  repairRatio : Float32
  symbolSize : UInt16
  keyframeRepairRatio : Float32

namespace AdaptiveFec

def defaultSymbolSize : UInt16 := 256

def defaultKeyframeRepairRatio : Float32 := 0.5

def fromProfile (profile : QualityProfile) : AdaptiveFec :=
  ⟨profile.framesPerBlock.toNat, profile.fecRatio, defaultSymbolSize, defaultKeyframeRepairRatio⟩

def buildEncoder (cfg : AdaptiveFec) : RaptorQFecEncoder :=
  (RaptorQFecEncoder.new cfg.framesPerBlock cfg.symbolSize).setKeyframeRatio cfg.keyframeRepairRatio

end AdaptiveFec

def createEncoder (profile : QualityProfile) : RaptorQFecEncoder :=
  (AdaptiveFec.fromProfile profile).buildEncoder

structure BlockState where
  numSourceSymbols : Option ℕ
  packets : List EncodingPacket
  symbolSize : UInt16
  decoded : Bool
  result : Option (List Buf)
  decodedAt : Option ℕ
  deriving DecidableEq, Repr

structure RaptorQFecDecoder where
  blocks : UInt16 → Option BlockState
  symbolSize : UInt16
  framesPerBlock : ℕ

/-- Two seconds, in nanoseconds. -/
def blockStale : ℕ := 2000000000

/-- Raw data is padded to a symbol, without a length. -/
def padded (symbolSize : UInt16) (data : Buf) : Buf :=
  let kept := data.take symbolSize.toNat
  kept ++ List.replicate (symbolSize.toNat - kept.length) 0

/-- The frame in a symbol, cut to the length in front of it. -/
def unprefixed (data : Buf) : Buf :=
  let payloadLen := (data.getD 0 0).toNat + 256 * (data.getD 1 0).toNat
  (data.drop lenPrefix).take payloadLen

namespace RaptorQFecDecoder

def new (framesPerBlock : ℕ) (symbolSize : UInt16) : RaptorQFecDecoder :=
  ⟨fun _ => none, symbolSize, framesPerBlock⟩

def getOrCreateBlock (dec : RaptorQFecDecoder) (blockId : UInt16) : BlockState :=
  (dec.blocks blockId).getD ⟨some dec.framesPerBlock, [], dec.symbolSize, false, none, none⟩

/-- A block that was decoded takes no more symbols, until it is old enough to
belong to a new sender. -/
def addSymbol (dec : RaptorQFecDecoder) (now : ℕ) (blockId symbolIndex : UInt16) (data : Buf) :
    RaptorQFecDecoder :=
  let block := dec.getOrCreateBlock blockId
  let stale := block.decodedAt.any fun t => blockStale ≤ now - t
  if block.decoded && !stale then
    { dec with blocks := Function.update dec.blocks blockId (some block) }
  else
    let block := if block.decoded then
        { block with decoded := false, result := none, decodedAt := none, packets := [] }
      else block
    let packet := ⟨blockId.toUInt8, symbolIndex.toNat, padded dec.symbolSize data⟩
    { dec with
      blocks := Function.update dec.blocks blockId
        (some { block with packets := block.packets ++ [packet] }) }

/-- The frames of a decoded block, one for each slot. -/
def splitFrames (symbolSize : UInt16) (numSource : ℕ) (data : Buf) : List Buf :=
  (List.range numSource).map fun i =>
    let offset := i * symbolSize.toNat
    if data.length < offset + lenPrefix then [] else unprefixed (data.drop offset)

def tryDecode (dec : RaptorQFecDecoder) (rq : RaptorQ) (now : ℕ) (blockId : UInt16) :
    Option (List Buf) × RaptorQFecDecoder :=
  match dec.blocks blockId with
  | none => (none, dec)
  | some block =>
      match block.result with
      | some result => (some result, dec)
      | none =>
          let numSource := block.numSourceSymbols.getD dec.framesPerBlock
          let blockLength := numSource * block.symbolSize.toNat
          match rq.decode blockId.toUInt8 block.symbolSize blockLength block.packets with
          | none => (none, dec)
          | some data =>
              let frames := splitFrames block.symbolSize numSource data
              (some frames,
                { dec with
                  blocks := Function.update dec.blocks blockId (some
                    { block with decoded := true, decodedAt := some now, result := some frames }) })

end RaptorQFecDecoder

def createDecoder (profile : QualityProfile) : RaptorQFecDecoder :=
  let cfg := AdaptiveFec.fromProfile profile
  .new cfg.framesPerBlock cfg.symbolSize

end Wzp.Fec
