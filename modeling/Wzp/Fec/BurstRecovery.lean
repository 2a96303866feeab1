import Wzp.Fec.Interleaver

/-!
# Recovery from bursts

Blocks are encoded, interleaved and sent. Of what a burst leaves of them, in any order and
with any repeats, the decoder gets back the frames.
-/
namespace Wzp.Fec
open Bytes

/-! ## The sender -/

def buildPrefixedBlockData (symbols : List Buf) (symbolSize : UInt16) : Buf :=
  symbols.flatMap (prefixed symbolSize)

def sourcePacketsForBlock (blockId : UInt16) (symbols : List Buf) (symbolSize : UInt16) :
    List EncodingPacket :=
  let data := buildPrefixedBlockData symbols symbolSize
  (List.range symbols.length).map fun i => ⟨blockId.toUInt8, i, sourceSlice data symbolSize i⟩

namespace RaptorQFecEncoder

def addSourceSymbolWithKeyframe (enc : RaptorQFecEncoder) (data : Buf) (isKeyframe : Bool) :
    Except FecError RaptorQFecEncoder := do
  let enc ← enc.addSourceSymbol data
  return if isKeyframe then { enc with hasKeyframe := true } else enc

/-- The symbols of the block that is being built: its frames and then the repair symbols. -/
def symbols (enc : RaptorQFecEncoder) (rq : RaptorQ) (ratio : Float32) : List Symbol :=
  (sourcePacketsForBlock enc.blockId enc.sourceSymbols enc.symbolSize).map
      (fun p => ⟨enc.blockId, UInt16.ofNat p.encodingSymbolId, false, p.data⟩) ++
    (enc.generateRepair rq ratio).map fun (index, data) => ⟨enc.blockId, index, true, data⟩

def symbolBlock (enc : RaptorQFecEncoder) (rq : RaptorQ) (ratio : Float32) : SymbolBlock where
  id := enc.blockId
  symbols := enc.symbols rq ratio
  labelled := by
    intro s hs
    simp only [symbols, List.mem_append, List.mem_map] at hs
    rcases hs with ⟨_, _, rfl⟩ | ⟨_, _, rfl⟩
    · rfl
    · rfl

/-- The frames of a block, some of them keyframes. -/
def fill (enc : RaptorQFecEncoder) (frames : List (Buf × Bool)) :
    Except FecError RaptorQFecEncoder :=
  frames.foldlM (fun enc f => enc.addSourceSymbolWithKeyframe f.1 f.2) enc

/-- Block after block, the encoder as it is when the block is complete. -/
def fillAll (enc : RaptorQFecEncoder) :
    List (List (Buf × Bool)) → Except FecError (List RaptorQFecEncoder)
  | [] => .ok []
  | frames :: groups => do
      let full ← enc.fill frames
      let rest ← full.finalizeBlock.fillAll groups
      return full :: rest

end RaptorQFecEncoder

/-! ## The receiver -/

inductive DecoderOp where
  | addSymbol (now : ℕ) (s : Symbol)
  | tryDecode (now : ℕ) (blockId : UInt16)

/-- A decoder and the answers it has given. -/
structure Receiving where
  dec : RaptorQFecDecoder
  answers : List (UInt16 × Option (List Buf))

namespace Receiving

def start (framesPerBlock : ℕ) (symbolSize : UInt16) : Receiving := ⟨.new framesPerBlock symbolSize, []⟩

def step (rq : RaptorQ) (r : Receiving) : DecoderOp → Receiving
  | .addSymbol now s => { r with dec := r.dec.addSymbol now s.blockId s.symbolIndex s.data }
  | .tryDecode now blockId =>
      let (answer, dec) := r.dec.tryDecode rq now blockId
      ⟨dec, r.answers ++ [(blockId, answer)]⟩

def run (rq : RaptorQ) (r : Receiving) (ops : List DecoderOp) : Receiving := ops.foldl (step rq) r

end Receiving

namespace DecoderOp

def now : DecoderOp → ℕ
  | .addSymbol now _ => now
  | .tryDecode now _ => now

def symbol? : DecoderOp → Option Symbol
  | .addSymbol _ s => some s
  | .tryDecode _ _ => none

end DecoderOp

/-- The symbols that arrive. -/
def received (ops : List DecoderOp) : List Symbol := ops.filterMap DecoderOp.symbol?

/-- A symbol as the decoder files it. -/
def filedPacket (symbolSize : UInt16) (s : Symbol) : EncodingPacket :=
  ⟨s.blockId.toUInt8, s.symbolIndex.toNat, padded symbolSize s.data⟩

/-! ## The fountain code -/

/-- The symbols that the library has for a block, source and repair. -/
def RaptorQ.packets (rq : RaptorQ) (block : UInt8) (symbolSize : UInt16) (data : Buf)
    (numSource count : ℕ) : List EncodingPacket :=
  ((List.range numSource).map fun i => ⟨block, i, sourceSlice data symbolSize i⟩) ++
    (rq.repairPackets block symbolSize data 0 count).zipIdx.map fun (pkt, i) =>
      ⟨block, numSource + i, pkt.data⟩

/-- What is relied on for a block: repair symbols are symbols, as many as were asked for; from
symbols of the block the library makes the block or nothing; and it makes the block from as
many different symbols as there are in it and some more. -/
structure RaptorQ.Corrects (rq : RaptorQ) (block : UInt8) (symbolSize : UInt16) (data : Buf)
    (numSource count overhead : ℕ) : Prop where
  repairCount : (rq.repairPackets block symbolSize data 0 count).length = count
  repairLength : ∀ p ∈ rq.repairPackets block symbolSize data 0 count,
    p.data.length = symbolSize.toNat
  exact : ∀ packets, (∀ p ∈ packets, p ∈ rq.packets block symbolSize data numSource count) →
    rq.decode block symbolSize (numSource * symbolSize.toNat) packets = none ∨
      rq.decode block symbolSize (numSource * symbolSize.toNat) packets = some data
  enough : ∀ packets, (∀ p ∈ packets, p ∈ rq.packets block symbolSize data numSource count) →
    numSource + overhead ≤ (packets.map EncodingPacket.encodingSymbolId).dedup.length →
      rq.decode block symbolSize (numSource * symbolSize.toNat) packets ≠ none

/-! ## Frames in a block -/

section
variable {symbolSize : UInt16} {frames symbols : List Buf} {frame : Buf} {i : ℕ}

theorem prefixed_length (hsize : lenPrefix ≤ symbolSize.toNat) (frame : Buf) :
    (prefixed symbolSize frame).length = symbolSize.toNat := by
  simp only [prefixed, lenPrefix, List.length_append, List.length_cons, List.length_take,
    List.length_replicate] at *
  omega

theorem unprefixed_prefixed (hframe : frame.length + lenPrefix ≤ symbolSize.toNat) (rest : Buf) :
    unprefixed (prefixed symbolSize frame ++ rest) = frame := by
  have hlt := symbolSize.toNat_lt
  have hmin : min frame.length (symbolSize.toNat - 2) = frame.length := by
    simp only [lenPrefix] at hframe
    omega
  have hlen : frame.length % 256 + 256 * (frame.length / 256 % 256) = frame.length := by
    omega
  simp [prefixed, unprefixed, lenPrefix, hmin, hlen]

theorem drop_block (hsize : lenPrefix ≤ symbolSize.toNat) :
    (buildPrefixedBlockData symbols symbolSize).drop (i * symbolSize.toNat) =
      buildPrefixedBlockData (symbols.drop i) symbolSize := by
  induction symbols generalizing i with
  | nil => simp [buildPrefixedBlockData]
  | cons symbol symbols ih =>
      cases i with
      | zero => simp
      | succ i =>
          have hlen := prefixed_length hsize symbol
          have hcons : buildPrefixedBlockData (symbol :: symbols) symbolSize =
              prefixed symbolSize symbol ++ buildPrefixedBlockData symbols symbolSize := rfl
          rw [hcons, Nat.succ_mul, Nat.add_comm, ← List.drop_drop, ← hlen, List.drop_left, hlen, ih,
            List.drop_succ_cons]

theorem block_length (hsize : lenPrefix ≤ symbolSize.toNat) :
    (buildPrefixedBlockData symbols symbolSize).length = symbols.length * symbolSize.toNat := by
  induction symbols with
  | nil => simp [buildPrefixedBlockData]
  | cons symbol symbols ih =>
      have hlen := prefixed_length hsize symbol
      simp only [buildPrefixedBlockData, List.flatMap_cons, List.length_append, List.length_cons] at *
      rw [hlen, ih, Nat.succ_mul, Nat.add_comm]

theorem sourceSlice_block (hsize : lenPrefix ≤ symbolSize.toNat) (hi : i < symbols.length) :
    sourceSlice (buildPrefixedBlockData symbols symbolSize) symbolSize i =
      prefixed symbolSize symbols[i] := by
  have hlen := prefixed_length hsize symbols[i]
  rw [sourceSlice, drop_block hsize, List.drop_eq_getElem_cons hi, buildPrefixedBlockData,
    List.flatMap_cons]
  exact List.take_left' hlen

/-- The frames come out of a block as they went in. -/
theorem splitFrames_block (hsize : lenPrefix ≤ symbolSize.toNat)
    (hframes : ∀ f ∈ frames, f.length + lenPrefix ≤ symbolSize.toNat) :
    RaptorQFecDecoder.splitFrames symbolSize frames.length
      (buildPrefixedBlockData frames symbolSize) = frames := by
  unfold RaptorQFecDecoder.splitFrames
  apply List.ext_getElem
  · simp
  · intro i hi hlt
    simp only [List.getElem_map, List.getElem_range]
    have hfit : (i + 1) * symbolSize.toNat ≤ frames.length * symbolSize.toNat :=
      Nat.mul_le_mul_right _ hlt
    rw [Nat.succ_mul] at hfit
    rw [if_neg (by rw [block_length hsize]; omega), drop_block hsize, List.drop_eq_getElem_cons hlt]
    exact unprefixed_prefixed (hframes _ (List.getElem_mem hlt)) _

theorem padded_of_length {data : Buf} (h : data.length = symbolSize.toNat) :
    padded symbolSize data = data := by
  simp [padded, ← h]

end

/-! ## Symbols as they are filed -/

namespace RaptorQFecEncoder
variable {enc : RaptorQFecEncoder} {rq : RaptorQ} {ratio : Float32} {overhead : ℕ}

/-- How many repair symbols there are for the block that is being built. -/
def repairCount (enc : RaptorQFecEncoder) (ratio : Float32) : ℕ :=
  numRepair enc.sourceSymbols.length (enc.effectiveRatio ratio)

/-- The packets of the block that is being built. -/
def packets (enc : RaptorQFecEncoder) (rq : RaptorQ) (ratio : Float32) : List EncodingPacket :=
  rq.packets enc.blockId.toUInt8 enc.symbolSize enc.buildBlockData enc.sourceSymbols.length
    (enc.repairCount ratio)

/-- The library corrects the block that is being built, whose numbers fit. -/
structure Correctable (enc : RaptorQFecEncoder) (rq : RaptorQ) (ratio : Float32)
    (overhead : ℕ) : Prop where
  corrects : rq.Corrects enc.blockId.toUInt8 enc.symbolSize enc.buildBlockData
    enc.sourceSymbols.length (enc.repairCount ratio) overhead
  some_frame : 0 < enc.sourceSymbols.length
  numbers : enc.sourceSymbols.length + enc.repairCount ratio ≤ 65536
  size : lenPrefix ≤ enc.symbolSize.toNat
  frames : ∀ f ∈ enc.sourceSymbols, f.length + lenPrefix ≤ enc.symbolSize.toNat

theorem generateRepair_eq (h : enc.Correctable rq ratio overhead) :
    enc.generateRepair rq ratio =
      (rq.repairPackets enc.blockId.toUInt8 enc.symbolSize enc.buildBlockData 0
        (enc.repairCount ratio)).zipIdx.map
        fun (pkt, i) => (UInt16.ofNat enc.sourceSymbols.length + UInt16.ofNat i, pkt.data) := by
  have hpos := h.some_frame
  have hcount := h.corrects.repairCount
  unfold generateRepair
  dsimp only
  split
  · next hnone =>
      have hzero : enc.repairCount ratio = 0 := by
        rcases hnone with hnone | hnone
        · omega
        · exact hnone
      rw [hzero] at hcount ⊢
      simp [List.eq_nil_of_length_eq_zero hcount]
  · rfl

theorem filed_symbols (h : enc.Correctable rq ratio overhead) :
    (enc.symbols rq ratio).map (filedPacket enc.symbolSize) = enc.packets rq ratio := by
  have hnumbers := h.numbers
  rw [symbols, generateRepair_eq h, packets, RaptorQ.packets, List.map_append]
  congr 1
  · simp only [sourcePacketsForBlock, List.map_map]
    apply List.map_congr_left
    intro i hi
    have hlt := List.mem_range.mp hi
    have hslice : (sourceSlice enc.buildBlockData enc.symbolSize i).length = enc.symbolSize.toNat := by
      have hblock := sourceSlice_block h.size hlt
      rw [buildPrefixedBlockData] at hblock
      rw [buildBlockData, hblock, prefixed_length h.size]
    have hindex : (UInt16.ofNat i).toNat = i := UInt16.toNat_ofNat_of_lt' (by simp [UInt16.size]; omega)
    simp only [Function.comp_apply, filedPacket, hindex]
    rw [← padded_of_length hslice]
    rfl
  · simp only [List.map_map]
    apply List.map_congr_left
    rintro ⟨pkt, i⟩ hmem
    have hlt : i < enc.repairCount ratio := by
      have hlt := List.snd_lt_of_mem_zipIdx hmem
      rwa [h.corrects.repairCount] at hlt
    have hlen := h.corrects.repairLength pkt (List.fst_mem_of_mem_zipIdx hmem)
    have hindex : (UInt16.ofNat enc.sourceSymbols.length + UInt16.ofNat i).toNat =
        enc.sourceSymbols.length + i := by
      rw [← UInt16.ofNat_add]
      exact UInt16.toNat_ofNat_of_lt' (by simp [UInt16.size]; omega)
    simp only [Function.comp_apply, filedPacket, hindex, padded_of_length hlen]

/-- The packets of a block are numbered through. -/
theorem packets_esi (h : enc.Correctable rq ratio overhead) :
    (enc.packets rq ratio).map EncodingPacket.encodingSymbolId =
      List.range (enc.sourceSymbols.length + enc.repairCount ratio) := by
  have hcount := h.corrects.repairCount
  rw [packets, RaptorQ.packets, List.map_append, List.map_map, List.map_map, List.range_add]
  congr 1
  · simp [Function.comp_def]
  · have hcomp : (EncodingPacket.encodingSymbolId ∘ fun x : EncodingPacket × ℕ =>
        (⟨enc.blockId.toUInt8, enc.sourceSymbols.length + x.2, x.1.data⟩ : EncodingPacket)) =
          (enc.sourceSymbols.length + ·) ∘ Prod.snd := rfl
    rw [hcomp, ← List.map_map, List.zipIdx_map_snd, hcount, List.range_eq_range']

theorem symbols_length (h : enc.Correctable rq ratio overhead) :
    (enc.symbols rq ratio).length = enc.sourceSymbols.length + enc.repairCount ratio := by
  have hlen := congrArg List.length (packets_esi h)
  rwa [← filed_symbols h, List.length_map, List.length_map, List.length_range] at hlen

end RaptorQFecEncoder

/-! ## One operation of the decoder -/

namespace BlockState

def stale (st : BlockState) (now : ℕ) : Bool :=
  st.decodedAt.any fun t => decide (blockStale ≤ now - t)

/-- A symbol for a block is ignored, starts the block anew, or is filed with the others. -/
def add (st : BlockState) (now : ℕ) (packet : EncodingPacket) : BlockState :=
  if st.decoded then
    if st.stale now then
      { st with decoded := false, result := none, decodedAt := none, packets := [packet] }
    else st
  else { st with packets := st.packets ++ [packet] }

end BlockState

namespace RaptorQFecDecoder
variable {dec : RaptorQFecDecoder} {rq : RaptorQ} {now : ℕ} {id blockId index : UInt16} {data : Buf}

theorem addSymbol_eq : dec.addSymbol now blockId index data =
    { dec with
      blocks := Function.update dec.blocks blockId (some ((dec.getOrCreateBlock blockId).add now
        ⟨blockId.toUInt8, index.toNat, padded dec.symbolSize data⟩)) } := by
  unfold addSymbol BlockState.add BlockState.stale
  cases hdecoded : (dec.getOrCreateBlock blockId).decoded with
  | false => simp [hdecoded]
  | true =>
      cases hstale : (dec.getOrCreateBlock blockId).decodedAt.any fun t => decide (blockStale ≤ now - t) with
      | false => simp [hdecoded, hstale]
      | true => simp [hdecoded, hstale]

theorem addSymbol_blocks (s : Symbol) :
    (dec.addSymbol now s.blockId s.symbolIndex s.data).blocks id =
      if s.blockId = id then
        some ((dec.getOrCreateBlock id).add now (filedPacket dec.symbolSize s))
      else dec.blocks id := by
  rw [addSymbol_eq]
  by_cases hid : s.blockId = id
  · subst hid
    simp [filedPacket]
  · rw [if_neg hid]
    exact Function.update_of_ne (Ne.symm hid) _ _

/-- What a block answers, and what becomes of it. -/
theorem tryDecode_of_block (rq : RaptorQ) (now : ℕ) {st : BlockState}
    (hst : dec.blocks blockId = some st) :
    (∃ frames, st.result = some frames ∧ dec.tryDecode rq now blockId = (some frames, dec)) ∨
      (st.result = none ∧
        let numSource := st.numSourceSymbols.getD dec.framesPerBlock
        let decoded := rq.decode blockId.toUInt8 st.symbolSize (numSource * st.symbolSize.toNat) st.packets
        (decoded = none ∧ dec.tryDecode rq now blockId = (none, dec)) ∨
          ∃ data, decoded = some data ∧
            let frames := splitFrames st.symbolSize numSource data
            dec.tryDecode rq now blockId = (some frames,
              { dec with
                blocks := Function.update dec.blocks blockId (some
                  { st with decoded := true, decodedAt := some now, result := some frames }) })) := by
  cases hresult : st.result with
  | some frames =>
      left
      exact ⟨frames, rfl, by simp [tryDecode, hst, hresult]⟩
  | none =>
      right
      refine ⟨rfl, ?_⟩
      dsimp only
      cases hdecode : rq.decode blockId.toUInt8 st.symbolSize
          (st.numSourceSymbols.getD dec.framesPerBlock * st.symbolSize.toNat) st.packets with
      | none => exact Or.inl ⟨rfl, by simp [tryDecode, hst, hresult, hdecode]⟩
      | some data => exact Or.inr ⟨data, rfl, by simp [tryDecode, hst, hresult, hdecode]⟩

theorem tryDecode_of_none (rq : RaptorQ) (now : ℕ) (hst : dec.blocks blockId = none) :
    dec.tryDecode rq now blockId = (none, dec) := by
  simp [tryDecode, hst]

/-- The decoder keeps its settings, and a block that is not asked for. -/
theorem tryDecode_frame (dec : RaptorQFecDecoder) (rq : RaptorQ) (now : ℕ) (blockId : UInt16) :
    (dec.tryDecode rq now blockId).2.symbolSize = dec.symbolSize ∧
    (dec.tryDecode rq now blockId).2.framesPerBlock = dec.framesPerBlock ∧
      ∀ id ≠ blockId, (dec.tryDecode rq now blockId).2.blocks id = dec.blocks id := by
  cases hst : dec.blocks blockId with
  | none => simp [tryDecode_of_none rq now hst]
  | some st =>
      rcases tryDecode_of_block rq now hst with
        ⟨_, _, heq⟩ | ⟨_, ⟨_, heq⟩ | ⟨_, _, heq⟩⟩
      · simp [heq]
      · simp [heq]
      · simp +contextual [heq, Function.update_of_ne]

end RaptorQFecDecoder

/-! ## A run, seen from one block -/

section
variable {enc : RaptorQFecEncoder} {rq : RaptorQ} {ratio : Float32} {overhead begin : ℕ}
  {ops : List DecoderOp} {op : DecoderOp} {r : Receiving} {st : BlockState} {got : List Symbol}

/-- What the decoder may hold of the block of an encoder. -/
structure BlockState.Genuine (enc : RaptorQFecEncoder) (rq : RaptorQ) (ratio : Float32)
    (st : BlockState) : Prop where
  numSource : st.numSourceSymbols = some enc.sourceSymbols.length
  size : st.symbolSize = enc.symbolSize
  packets : ∀ p ∈ st.packets, p ∈ enc.packets rq ratio
  result : st.result = none ∨ st.result = some enc.sourceSymbols
  decoded : st.decoded = st.result.isSome

/-- The decoder holds nothing false of the block, and has said nothing false about it. -/
structure Receiving.Exact (enc : RaptorQFecEncoder) (rq : RaptorQ) (ratio : Float32)
    (r : Receiving) : Prop where
  size : r.dec.symbolSize = enc.symbolSize
  perBlock : r.dec.framesPerBlock = enc.sourceSymbols.length
  block : ∀ st, r.dec.blocks enc.blockId = some st → st.Genuine enc rq ratio
  answers : ∀ a ∈ r.answers, a.1 = enc.blockId → a.2 = none ∨ a.2 = some enc.sourceSymbols

/-- A symbol that claims to be of the block is one of its symbols. -/
def DecoderOp.Honest (enc : RaptorQFecEncoder) (rq : RaptorQ) (ratio : Float32)
    (op : DecoderOp) : Prop :=
  ∀ s, op.symbol? = some s → s.blockId = enc.blockId → s ∈ enc.symbols rq ratio

theorem filedPacket_mem (h : enc.Correctable rq ratio overhead) {s : Symbol}
    (hs : s ∈ enc.symbols rq ratio) : filedPacket enc.symbolSize s ∈ enc.packets rq ratio := by
  rw [← RaptorQFecEncoder.filed_symbols h]
  exact List.mem_map_of_mem hs

theorem BlockState.Genuine.add (h : st.Genuine enc rq ratio) {packet : EncodingPacket}
    (hpacket : packet ∈ enc.packets rq ratio) (now : ℕ) : (st.add now packet).Genuine enc rq ratio := by
  unfold BlockState.add
  split
  · split
    · exact ⟨h.numSource, h.size, by simpa using hpacket, Or.inl rfl, rfl⟩
    · exact h
  · refine ⟨h.numSource, h.size, fun p hp => ?_, h.result, h.decoded⟩
    rcases List.mem_append.mp hp with hp | hp
    · exact h.packets p hp
    · rwa [List.mem_singleton.mp hp]

theorem Receiving.Exact.getOrCreateBlock (h : r.Exact enc rq ratio) :
    (r.dec.getOrCreateBlock enc.blockId).Genuine enc rq ratio := by
  unfold RaptorQFecDecoder.getOrCreateBlock
  cases hblock : r.dec.blocks enc.blockId with
  | none => exact ⟨congrArg some h.perBlock, h.size, by simp, Or.inl rfl, rfl⟩
  | some st => exact h.block st hblock

/-- What the library makes of the packets that are held. -/
theorem BlockState.Genuine.decode (h : st.Genuine enc rq ratio)
    (hcorr : enc.Correctable rq ratio overhead) {perBlock : ℕ} {data : Buf}
    (hdata : rq.decode enc.blockId.toUInt8 st.symbolSize
      (st.numSourceSymbols.getD perBlock * st.symbolSize.toNat) st.packets = some data) :
    RaptorQFecDecoder.splitFrames st.symbolSize (st.numSourceSymbols.getD perBlock) data =
      enc.sourceSymbols := by
  rw [h.numSource, h.size, Option.getD_some] at hdata ⊢
  rcases hcorr.corrects.exact st.packets h.packets with hnone | hsome
  · rw [hnone] at hdata
    cases hdata
  · rw [hsome] at hdata
    cases hdata
    exact splitFrames_block hcorr.size hcorr.frames

theorem Receiving.Exact.step (h : r.Exact enc rq ratio) (hcorr : enc.Correctable rq ratio overhead)
    (hop : op.Honest enc rq ratio) : (r.step rq op).Exact enc rq ratio := by
  cases op with
  | addSymbol now s =>
      refine ⟨?_, ?_, fun st hst => ?_, h.answers⟩
      · simp [Receiving.step, RaptorQFecDecoder.addSymbol_eq, h.size]
      · simp [Receiving.step, RaptorQFecDecoder.addSymbol_eq, h.perBlock]
      · simp only [Receiving.step, RaptorQFecDecoder.addSymbol_blocks] at hst
        split at hst
        · next hid =>
            have hmem := filedPacket_mem hcorr (hop s rfl hid)
            rw [h.size] at hst
            cases hst
            exact h.getOrCreateBlock.add hmem now
        · exact h.block st hst
  | tryDecode now blockId =>
      obtain ⟨hsize, hper, hframe⟩ := RaptorQFecDecoder.tryDecode_frame r.dec rq now blockId
      have hsettled : (∀ st, (r.dec.tryDecode rq now blockId).2.blocks enc.blockId = some st →
            st.Genuine enc rq ratio) ∧
          (blockId = enc.blockId → (r.dec.tryDecode rq now blockId).1 = none ∨
            (r.dec.tryDecode rq now blockId).1 = some enc.sourceSymbols) := by
        by_cases hid : blockId = enc.blockId
        · subst hid
          cases hst : r.dec.blocks enc.blockId with
          | none => simp [RaptorQFecDecoder.tryDecode_of_none rq now hst, hst]
          | some st =>
              have hgen := h.block st hst
              rcases RaptorQFecDecoder.tryDecode_of_block rq now hst with
                ⟨frames, hresult, heq⟩ | ⟨hresult, ⟨hdecode, heq⟩ | ⟨data, hdecode, heq⟩⟩
              · have hframes := hgen.result
                simpa [heq, hst, hgen, hresult] using hframes
              · simpa [heq, hst] using hgen
              · have hframes := hgen.decode hcorr hdecode
                simp only [heq, hframes, Function.update_self, Option.some.injEq, forall_eq', or_true,
                  implies_true, and_true]
                exact ⟨hgen.numSource, hgen.size, hgen.packets, Or.inr rfl, rfl⟩
        · rw [hframe _ (Ne.symm hid)]
          exact ⟨h.block, fun heq => absurd heq hid⟩
      refine ⟨hsize.trans h.size, hper.trans h.perBlock, hsettled.1, fun a ha hid => ?_⟩
      rcases List.mem_append.mp ha with ha | ha
      · exact h.answers a ha hid
      · obtain rfl := List.mem_singleton.mp ha
        exact hsettled.2 hid

theorem start_exact (hper : enc.framesPerBlock = enc.sourceSymbols.length) :
    (Receiving.start enc.framesPerBlock enc.symbolSize).Exact enc rq ratio := by
  refine ⟨rfl, hper, fun st hst => ?_, fun a ha => ?_⟩
  · cases hst
  · cases ha

theorem run_append_singleton (r : Receiving) (ops : List DecoderOp) (op : DecoderOp) :
    r.run rq (ops ++ [op]) = (r.run rq ops).step rq op := by
  simp [Receiving.run]

theorem run_exact (hcorr : enc.Correctable rq ratio overhead)
    (hper : enc.framesPerBlock = enc.sourceSymbols.length)
    (hops : ∀ op ∈ ops, op.Honest enc rq ratio) :
    ((Receiving.start enc.framesPerBlock enc.symbolSize).run rq ops).Exact enc rq ratio := by
  induction ops using List.reverseRecOn with
  | nil => exact start_exact hper
  | append_singleton ops op ih =>
      rw [run_append_singleton]
      have hprefix := ih fun op hop => hops op (List.mem_append_left _ hop)
      exact hprefix.step hcorr (hops op (by simp))

/-! ## Nothing is thrown away in time -/

/-- What has arrived of the block is held, until the block is decoded. -/
structure Receiving.Holds (enc : RaptorQFecEncoder) (begin : ℕ) (got : List Symbol)
    (r : Receiving) : Prop where
  kept : ∀ s ∈ got, s.blockId = enc.blockId → ∃ st, r.dec.blocks enc.blockId = some st ∧
    (st.result = none → filedPacket enc.symbolSize s ∈ st.packets)
  since : ∀ st, r.dec.blocks enc.blockId = some st → ∀ t, st.decodedAt = some t → begin ≤ t

theorem BlockState.not_stale {now : ℕ} (hsince : ∀ t, st.decodedAt = some t → begin ≤ t)
    (hnow : now < begin + blockStale) : st.stale now = false := by
  unfold BlockState.stale
  cases hdecoded : st.decodedAt with
  | none => rfl
  | some t =>
      have hle := hsince t hdecoded
      have hpos : 0 < blockStale := by decide
      simp only [Option.any_some, decide_eq_false_iff_not, not_le]
      omega

/-- A symbol that is not stale changes only what is held. -/
theorem BlockState.add_fresh {now : ℕ} (h : st.Genuine enc rq ratio) (hfresh : st.stale now = false)
    (packet : EncodingPacket) :
    (st.add now packet).result = st.result ∧ (st.add now packet).decodedAt = st.decodedAt ∧
      (st.result = none → (st.add now packet).packets = st.packets ++ [packet]) := by
  have hdecoded := h.decoded
  unfold BlockState.add
  cases hresult : st.result with
  | none =>
      rw [hresult] at hdecoded
      simp [hdecoded]
  | some frames =>
      rw [hresult] at hdecoded
      simp [hdecoded, hresult, hfresh]

theorem Receiving.Holds.addSymbol (h : r.Holds enc begin got) (hexact : r.Exact enc rq ratio)
    {now : ℕ} (hnow : now < begin + blockStale) (s : Symbol) :
    (r.step rq (.addSymbol now s)).Holds enc begin (got ++ [s]) := by
  have hsince : ∀ t, (r.dec.getOrCreateBlock enc.blockId).decodedAt = some t → begin ≤ t := by
    intro t ht
    unfold RaptorQFecDecoder.getOrCreateBlock at ht
    cases hblock : r.dec.blocks enc.blockId with
    | none =>
        rw [hblock] at ht
        cases ht
    | some st =>
        rw [hblock] at ht
        exact h.since st hblock t ht
  have hadd := BlockState.add_fresh hexact.getOrCreateBlock (BlockState.not_stale hsince hnow)
  constructor
  · intro x hx hid
    simp only [Receiving.step, RaptorQFecDecoder.addSymbol_blocks]
    rcases List.mem_append.mp hx with hx | hx
    · obtain ⟨st, hst, hheld⟩ := h.kept x hx hid
      have hcreate : r.dec.getOrCreateBlock enc.blockId = st := by
        simp [RaptorQFecDecoder.getOrCreateBlock, hst]
      split
      · refine ⟨_, rfl, fun hnone => ?_⟩
        obtain ⟨hresult, -, hpackets⟩ := hadd (filedPacket r.dec.symbolSize s)
        rw [hresult, hcreate] at hnone
        rw [hpackets (by rw [hcreate]; exact hnone), hcreate]
        exact List.mem_append_left _ (hheld hnone)
      · exact ⟨st, hst, hheld⟩
    · obtain rfl := List.mem_singleton.mp hx
      rw [if_pos hid]
      refine ⟨_, rfl, fun hnone => ?_⟩
      obtain ⟨hresult, -, hpackets⟩ := hadd (filedPacket r.dec.symbolSize x)
      rw [hresult] at hnone
      rw [hpackets hnone, hexact.size]
      simp
  · intro st hst t ht
    simp only [Receiving.step, RaptorQFecDecoder.addSymbol_blocks] at hst
    split at hst
    · cases hst
      rw [(hadd _).2.1] at ht
      exact hsince t ht
    · exact h.since st hst t ht

theorem Receiving.Holds.tryDecode (h : r.Holds enc begin got) {now : ℕ} (hnow : begin ≤ now)
    (blockId : UInt16) : (r.step rq (.tryDecode now blockId)).Holds enc begin got := by
  obtain ⟨-, -, hframe⟩ := RaptorQFecDecoder.tryDecode_frame r.dec rq now blockId
  by_cases hid : enc.blockId = blockId
  · subst hid
    cases hst : r.dec.blocks enc.blockId with
    | none =>
        have heq := RaptorQFecDecoder.tryDecode_of_none rq now hst
        constructor
        · simpa [Receiving.step, heq] using h.kept
        · simpa [Receiving.step, heq] using h.since
    | some st =>
        rcases RaptorQFecDecoder.tryDecode_of_block rq now hst with
          ⟨_, _, heq⟩ | ⟨_, ⟨_, heq⟩ | ⟨_, _, heq⟩⟩
        · constructor
          · simpa [Receiving.step, heq] using h.kept
          · simpa [Receiving.step, heq] using h.since
        · constructor
          · simpa [Receiving.step, heq] using h.kept
          · simpa [Receiving.step, heq] using h.since
        · constructor
          · simp [Receiving.step, heq]
          · simpa [Receiving.step, heq] using hnow
  · constructor
    · simpa [Receiving.step, hframe _ hid] using h.kept
    · simpa [Receiving.step, hframe _ hid] using h.since

theorem received_append_singleton (ops : List DecoderOp) (op : DecoderOp) :
    received (ops ++ [op]) = received ops ++ op.symbol?.toList := by
  cases op with
  | addSymbol now s => simp [received, DecoderOp.symbol?]
  | tryDecode now blockId => simp [received, DecoderOp.symbol?]

theorem run_holds (hcorr : enc.Correctable rq ratio overhead)
    (hper : enc.framesPerBlock = enc.sourceSymbols.length)
    (hops : ∀ op ∈ ops, op.Honest enc rq ratio)
    (hclock : ∀ op ∈ ops, begin ≤ op.now ∧ op.now < begin + blockStale) :
    ((Receiving.start enc.framesPerBlock enc.symbolSize).run rq ops).Holds enc begin (received ops) := by
  induction ops using List.reverseRecOn with
  | nil =>
      constructor
      · intro s hs
        cases hs
      · intro st hst
        cases hst
  | append_singleton ops op ih =>
      have hhonest : ∀ op ∈ ops, op.Honest enc rq ratio := fun op hop => hops op (List.mem_append_left _ hop)
      have hholds := ih hhonest fun op hop => hclock op (List.mem_append_left _ hop)
      have htime := hclock op (by simp)
      rw [run_append_singleton, received_append_singleton]
      cases op with
      | addSymbol now s => exact hholds.addSymbol (run_exact hcorr hper hhonest) htime.2 s
      | tryDecode now blockId =>
          simp only [DecoderOp.symbol?, Option.toList_none, List.append_nil]
          exact hholds.tryDecode htime.1 blockId

/-- Different symbols of a block have different numbers. -/
theorem nodup_esi (hcorr : enc.Correctable rq ratio overhead) {part : List Symbol}
    (hpart : ∀ s ∈ part, s ∈ enc.symbols rq ratio) (hnodup : part.Nodup) :
    ((part.map (filedPacket enc.symbolSize)).map EncodingPacket.encodingSymbolId).Nodup := by
  have hall : ((enc.symbols rq ratio).map
      (EncodingPacket.encodingSymbolId ∘ filedPacket enc.symbolSize)).Nodup := by
    rw [← List.map_map, RaptorQFecEncoder.filed_symbols hcorr, RaptorQFecEncoder.packets_esi hcorr]
    exact List.nodup_range
  rw [List.map_map]
  apply hnodup.map_on
  intro a ha b hb heq
  exact List.inj_on_of_nodup_map hall (hpart a ha) (hpart b hb) heq

/-- A block of which enough has arrived is decoded. -/
theorem Receiving.Holds.decoded (h : r.Holds enc begin got) (hexact : r.Exact enc rq ratio)
    (hcorr : enc.Correctable rq ratio overhead) {part : List Symbol}
    (hpart : ∀ s ∈ part, s ∈ enc.symbols rq ratio) (hgot : ∀ s ∈ part, s ∈ got)
    (hnodup : part.Nodup) (henough : enc.sourceSymbols.length + overhead ≤ part.length) (now : ℕ) :
    (r.dec.tryDecode rq now enc.blockId).1 = some enc.sourceSymbols := by
  have hkept : ∀ s ∈ part, ∃ st, r.dec.blocks enc.blockId = some st ∧
      (st.result = none → filedPacket enc.symbolSize s ∈ st.packets) := fun s hs =>
    h.kept s (hgot s hs) ((enc.symbolBlock rq ratio).labelled s (hpart s hs))
  obtain ⟨s, hs⟩ := List.exists_mem_of_length_pos
    (show 0 < part.length from Nat.lt_of_lt_of_le hcorr.some_frame (by omega))
  obtain ⟨st, hst, -⟩ := hkept s hs
  have hgen := hexact.block st hst
  rcases RaptorQFecDecoder.tryDecode_of_block rq now hst with
    ⟨frames, hresult, heq⟩ | ⟨hresult, ⟨hdecode, heq⟩ | ⟨data, hdecode, heq⟩⟩
  · have hframes := hgen.result
    rw [hresult] at hframes
    simpa [heq] using hframes
  · exfalso
    have hsub : (part.map (filedPacket enc.symbolSize)).map EncodingPacket.encodingSymbolId ⊆
        (st.packets.map EncodingPacket.encodingSymbolId).dedup := by
      intro esi hesi
      obtain ⟨packet, hpacket, rfl⟩ := List.mem_map.mp hesi
      obtain ⟨s, hs, rfl⟩ := List.mem_map.mp hpacket
      obtain ⟨st', hst', hheld⟩ := hkept s hs
      rw [hst] at hst'
      cases hst'
      exact List.mem_dedup.mpr (List.mem_map_of_mem (hheld hresult))
    have hle := ((nodup_esi hcorr hpart hnodup).subperm hsub).length_le
    rw [List.length_map, List.length_map] at hle
    rw [hgen.numSource, hgen.size, Option.getD_some] at hdecode
    exact hcorr.corrects.enough st.packets hgen.packets (henough.trans hle) hdecode
  · rw [heq]
    exact congrArg some (hgen.decode hcorr hdecode)

end

/-! ## Blocks that are sent together -/

namespace RaptorQFecEncoder
variable {enc enc' full : RaptorQFecEncoder} {frames : List (Buf × Bool)}
  {groups : List (List (Buf × Bool))} {encs : List RaptorQFecEncoder}

theorem addSourceSymbolWithKeyframe_ok {data : Buf} {isKeyframe : Bool}
    (h : enc.addSourceSymbolWithKeyframe data isKeyframe = .ok enc') :
    enc'.blockId = enc.blockId ∧ enc'.framesPerBlock = enc.framesPerBlock ∧
      enc'.symbolSize = enc.symbolSize ∧ enc'.sourceSymbols = enc.sourceSymbols ++ [data] := by
  unfold addSourceSymbolWithKeyframe addSourceSymbol at h
  split at h
  · cases h
  · cases h
    cases isKeyframe
    · exact ⟨rfl, rfl, rfl, rfl⟩
    · exact ⟨rfl, rfl, rfl, rfl⟩

theorem fill_ok (h : enc.fill frames = .ok full) :
    full.blockId = enc.blockId ∧ full.framesPerBlock = enc.framesPerBlock ∧
      full.symbolSize = enc.symbolSize ∧
        full.sourceSymbols = enc.sourceSymbols ++ frames.map Prod.fst := by
  induction frames generalizing enc with
  | nil =>
      cases h
      simp
  | cons f frames ih =>
      rw [fill, List.foldlM_cons] at h
      cases hadd : enc.addSourceSymbolWithKeyframe f.1 f.2 with
      | error e =>
          rw [hadd] at h
          cases h
      | ok enc' =>
          rw [hadd] at h
          obtain ⟨hid, hper, hsize, hsymbols⟩ := addSourceSymbolWithKeyframe_ok hadd
          obtain ⟨hid', hper', hsize', hsymbols'⟩ := ih h
          exact ⟨hid'.trans hid, hper'.trans hper, hsize'.trans hsize, by simp [hsymbols', hsymbols]⟩

/-- The blocks are numbered on, and each has the frames that were put into it. -/
theorem fillAll_ok (hempty : enc.sourceSymbols = []) (h : enc.fillAll groups = .ok encs) :
    encs.map blockId = (List.range groups.length).map (fun i => enc.blockId + UInt16.ofNat i) ∧
      encs.map sourceSymbols = groups.map (fun frames => frames.map Prod.fst) ∧
        ∀ full ∈ encs, full.framesPerBlock = enc.framesPerBlock ∧ full.symbolSize = enc.symbolSize := by
  induction groups generalizing enc encs with
  | nil =>
      cases h
      simp
  | cons frames groups ih =>
      rw [fillAll] at h
      cases hfill : enc.fill frames with
      | error e =>
          rw [hfill] at h
          cases h
      | ok full =>
          rw [hfill] at h
          cases hrest : full.finalizeBlock.fillAll groups with
          | error e =>
              simp only [hrest, bind, Except.bind] at h
              cases h
          | ok rest =>
              simp only [hrest, bind, Except.bind] at h
              cases h
              obtain ⟨hid, hper, hsize, hsymbols⟩ := fill_ok hfill
              obtain ⟨hids, hframes, hconfig⟩ := @ih full.finalizeBlock rest rfl hrest
              refine ⟨?_, ?_, ?_⟩
              · rw [List.map_cons, hids, List.length_cons, List.range_succ_eq_map, List.map_cons,
                  List.map_map]
                congr 1
                · simp [hid]
                · apply List.map_congr_left
                  intro i _
                  simp [finalizeBlock, hid, UInt16.ofNat_add, UInt16.add_assoc, UInt16.add_comm 1]
              · rw [List.map_cons, List.map_cons, hframes, hsymbols, hempty, List.nil_append]
              · intro x hx
                rcases List.mem_cons.mp hx with rfl | hx
                · exact ⟨hper, hsize⟩
                · obtain ⟨hper', hsize'⟩ := hconfig x hx
                  exact ⟨hper'.trans hper, hsize'.trans hsize⟩

end RaptorQFecEncoder

/-- The symbols of complete blocks, by turns. -/
def transmit (il : Interleaver) (rq : RaptorQ) (ratio : Float32) (encs : List RaptorQFecEncoder) :
    List Symbol :=
  il.interleave (encs.map fun enc => enc.symbols rq ratio)

/-- What a burst of losses leaves. -/
def spared (sent : List Symbol) (start count : ℕ) : List Symbol :=
  sent.take start ++ sent.drop (start + count)

section
variable {il : Interleaver} {rq : RaptorQ} {ratio : Float32} {overhead repairs start count begin : ℕ}
  {enc full : RaptorQFecEncoder} {encs : List RaptorQFecEncoder}
  {groups : List (List (Buf × Bool))} {ops : List DecoderOp}

/-- The blocks of different encoders. -/
def batchOf (rq : RaptorQ) (ratio : Float32) (encs : List RaptorQFecEncoder)
    (h : (encs.map RaptorQFecEncoder.blockId).Nodup) : Batch where
  blocks := encs.map fun enc => enc.symbolBlock rq ratio
  distinct := by simpa [Function.comp_def, RaptorQFecEncoder.symbolBlock] using h

theorem batchOf_symbols (h : (encs.map RaptorQFecEncoder.blockId).Nodup) :
    il.interleave (batchOf rq ratio encs h).symbols = transmit il rq ratio encs := by
  simp [batchOf, Batch.symbols, transmit, Function.comp_def, RaptorQFecEncoder.symbolBlock]

/-- What is sent under the number of a block is the block. -/
theorem filter_transmit (il : Interleaver) (h : (encs.map RaptorQFecEncoder.blockId).Nodup) (hfull : full ∈ encs) :
    (transmit il rq ratio encs).filter (fun s => decide (s.blockId = full.blockId)) =
      full.symbols rq ratio := by
  rw [← batchOf_symbols h]
  exact Batch.filter_interleave il (b := full.symbolBlock rq ratio) (List.mem_map_of_mem hfull)

/-- Blocks of one length bear their share of a burst, and no more. -/
theorem losses_le (il : Interleaver) (h : (encs.map RaptorQFecEncoder.blockId).Nodup)
    (hfull : full ∈ encs)
    (hlen : ∀ x ∈ encs, (x.symbols rq ratio).length = (full.symbols rq ratio).length)
    (start count : ℕ) :
    Batch.ofBlock full.blockId (Batch.burst (transmit il rq ratio encs) start count) ≤
      (count + (encs.length - 1)) / encs.length := by
  obtain ⟨before, after, rfl⟩ := List.append_of_mem hfull
  have hsplit : (batchOf rq ratio (before ++ full :: after) h).blocks =
      before.map (fun enc => enc.symbolBlock rq ratio) ++ full.symbolBlock rq ratio ::
        after.map (fun enc => enc.symbolBlock rq ratio) := by
    simp [batchOf]
  have hspread := (Batch.burst_spread_iff il hsplit).mpr (Or.inr ⟨?_, ?_⟩) start count
  · rw [batchOf_symbols h] at hspread
    simpa [batchOf, RaptorQFecEncoder.symbolBlock] using hspread
  · intro b hb
    obtain ⟨x, hx, rfl⟩ := List.mem_map.mp hb
    exact (hlen x (List.mem_append_left _ hx)).ge
  · intro b hb
    obtain ⟨x, hx, rfl⟩ := List.mem_map.mp hb
    have hle := (hlen x (List.mem_append_right _ (List.mem_cons_of_mem _ hx))).ge
    exact Nat.le_succ_of_le hle

theorem ofBlock_spared (id : UInt16) (sent : List Symbol) (start count : ℕ) :
    Batch.ofBlock id (spared sent start count) + Batch.ofBlock id (Batch.burst sent start count) =
      Batch.ofBlock id sent := by
  have hsplit : sent = sent.take start ++ ((sent.drop start).take count ++ sent.drop (start + count)) := by
    rw [← List.drop_drop, List.take_append_drop, List.take_append_drop]
  have hsum := congrArg (Batch.ofBlock id) hsplit
  simp only [Batch.ofBlock, Batch.burst, spared, List.countP_append] at hsum ⊢
  omega

theorem spared_sublist (sent : List Symbol) (start count : ℕ) :
    (spared sent start count).Sublist sent := by
  have hdrop : (sent.drop (start + count)).Sublist (sent.drop start) := by
    rw [← List.drop_drop]
    exact List.drop_sublist _ _
  have happend := (List.Sublist.refl (sent.take start)).append hdrop
  rwa [List.take_append_drop] at happend

/-- The numbers of blocks that are filled one after the other. -/
theorem blockId_nodup (hempty : enc.sourceSymbols = []) (hfill : enc.fillAll groups = .ok encs)
    (hmany : groups.length ≤ 65536) : (encs.map RaptorQFecEncoder.blockId).Nodup := by
  rw [(RaptorQFecEncoder.fillAll_ok hempty hfill).1]
  apply List.nodup_range.map_on
  intro i hi j hj heq
  have hi := List.mem_range.mp hi
  have hj := List.mem_range.mp hj
  have hnat := congrArg UInt16.toNat ((UInt16.add_right_inj _).mp heq)
  rwa [UInt16.toNat_ofNat_of_lt' (by simp [UInt16.size]; omega),
    UInt16.toNat_ofNat_of_lt' (by simp [UInt16.size]; omega)] at hnat

theorem symbols_nodup (hcorr : full.Correctable rq ratio overhead) :
    (full.symbols rq ratio).Nodup := by
  have hall : (((full.symbols rq ratio).map (filedPacket full.symbolSize)).map
      EncodingPacket.encodingSymbolId).Nodup := by
    rw [RaptorQFecEncoder.filed_symbols hcorr, RaptorQFecEncoder.packets_esi hcorr]
    exact List.nodup_range
  exact (hall.of_map _).of_map _

/-- Of blocks of one length that are sent together, whatever a burst leaves brings back every
frame, as long as the share of each block in the burst is within its repair symbols. The rest
may come in any order, more than once, and between questions. -/
theorem burst_recovered (il : Interleaver) (hempty : enc.sourceSymbols = [])
    (hfill : enc.fillAll groups = .ok encs)
    (hfull : ∀ frames ∈ groups, frames.length = enc.framesPerBlock) (hmany : groups.length ≤ 65536)
    (hcorr : ∀ full ∈ encs, full.Correctable rq ratio overhead)
    (hrepairs : ∀ full ∈ encs, full.repairCount ratio = repairs)
    (hloss : (count + (groups.length - 1)) / groups.length + overhead ≤ repairs)
    (hsent : ∀ s ∈ received ops, s ∈ transmit il rq ratio encs)
    (hspared : ∀ s ∈ spared (transmit il rq ratio encs) start count, s ∈ received ops)
    (hclock : ∀ op ∈ ops, begin ≤ op.now ∧ op.now < begin + blockStale)
    {i : ℕ} {frames : List (Buf × Bool)} (hi : groups[i]? = some frames) :
    let r := (Receiving.start enc.framesPerBlock enc.symbolSize).run rq ops
    let id := enc.blockId + UInt16.ofNat i
    (∀ a ∈ r.answers, a.1 = id → a.2 = none ∨ a.2 = some (frames.map Prod.fst)) ∧
      ∀ now, (r.dec.tryDecode rq now id).1 = some (frames.map Prod.fst) := by
  obtain ⟨hids, hframes, hconfig⟩ := RaptorQFecEncoder.fillAll_ok hempty hfill
  have hnodup := blockId_nodup hempty hfill hmany
  have hlength : encs.length = groups.length := by
    simpa using congrArg List.length hframes
  obtain ⟨hlt, hget⟩ := List.getElem?_eq_some_iff.mp hi
  have hlt' : i < encs.length := hlength ▸ hlt
  -- the encoder as it is when the block is complete
  obtain ⟨full, hfulldef⟩ : ∃ full, full = encs[i] := ⟨_, rfl⟩
  have hmem : full ∈ encs := hfulldef ▸ List.getElem_mem hlt'
  have hid : full.blockId = enc.blockId + UInt16.ofNat i := by
    have hat := congrArg (·[i]?) hids
    simpa [hlt, hlt', ← hfulldef] using hat
  have hsource : full.sourceSymbols = frames.map Prod.fst := by
    have hat := congrArg (·[i]?) hframes
    simpa [hlt, hlt', ← hfulldef, hget] using hat
  have hper : full.framesPerBlock = full.sourceSymbols.length := by
    rw [hsource, List.length_map, hfull frames (List.mem_of_getElem? hi), (hconfig full hmem).1]
  have hcorr' := hcorr full hmem
  have hhonest : ∀ op ∈ ops, op.Honest full rq ratio := by
    intro op hop s hs hblock
    have hreceived : s ∈ received ops := List.mem_filterMap.mpr ⟨op, hop, hs⟩
    rw [← filter_transmit il hnodup hmem]
    exact List.mem_filter.mpr ⟨hsent s hreceived, decide_eq_true hblock⟩
  have hlen : ∀ x ∈ encs, (x.symbols rq ratio).length = full.sourceSymbols.length + repairs := by
    intro x hx
    have hxframes : x.sourceSymbols.length = enc.framesPerBlock := by
      have hx' := List.mem_map_of_mem (f := RaptorQFecEncoder.sourceSymbols) hx
      rw [hframes] at hx'
      obtain ⟨g, hg, heq⟩ := List.mem_map.mp hx'
      rw [← heq, List.length_map, hfull g hg]
    rw [RaptorQFecEncoder.symbols_length (hcorr x hx), hrepairs x hx, hxframes, ← hper,
      (hconfig full hmem).1]
  have hlost := losses_le il hnodup hmem (fun x hx => (hlen x hx).trans (hlen full hmem).symm)
    start count
  rw [hlength] at hlost
  have hexact := run_exact hcorr' hper hhonest
  have hholds := run_holds hcorr' hper hhonest hclock
  rw [(hconfig full hmem).1, (hconfig full hmem).2] at hexact hholds
  rw [← hid, ← hsource]
  refine ⟨hexact.answers, fun now => ?_⟩
  -- the part of the block that the burst has spared
  let own := fun s : Symbol => decide (s.blockId = full.blockId)
  have hsub := (spared_sublist (transmit il rq ratio encs) start count).filter own
  rw [filter_transmit il hnodup hmem] at hsub
  have hgot : ∀ s ∈ (spared (transmit il rq ratio encs) start count).filter own, s ∈ received ops :=
    fun s hs => hspared s (List.mem_of_mem_filter hs)
  refine hholds.decoded hexact hcorr' (fun s hs => hsub.subset hs) hgot
    ((symbols_nodup hcorr').sublist hsub) ?_ now
  have htotal := ofBlock_spared full.blockId (transmit il rq ratio encs) start count
  have hall : Batch.ofBlock full.blockId (transmit il rq ratio encs) = (full.symbols rq ratio).length := by
    rw [Batch.ofBlock, List.countP_eq_length_filter, filter_transmit il hnodup hmem]
  have hpart : ((spared (transmit il rq ratio encs) start count).filter own).length =
      Batch.ofBlock full.blockId (spared (transmit il rq ratio encs) start count) :=
    List.countP_eq_length_filter.symm
  rw [hall, hlen full hmem] at htotal
  omega

end

/-! ## A code that makes up for one loss -/

theorem xorSymbols_cancel {a b : Buf} (h : a.length ≤ b.length) :
    xorSymbols (xorSymbols a b) b = a := by
  apply List.ext_getElem
  · simp only [xorSymbols, List.length_zipWith]
    omega
  · intro i _ _
    simp only [xorSymbols, List.getElem_zipWith, UInt8.xor_assoc, UInt8.xor_self, UInt8.xor_zero]

theorem xorSymbols_zeros {a : Buf} {n : ℕ} (h : a.length = n) :
    xorSymbols (List.replicate n 0) a = a := by
  apply List.ext_getElem
  · simp only [xorSymbols, List.length_zipWith, List.length_replicate, h, min_self]
  · intro i _ _
    simp only [xorSymbols, List.getElem_zipWith, List.getElem_replicate, UInt8.zero_xor]

instance : RightCommutative xorSymbols where
  right_comm a b c := by
    apply List.ext_getElem
    · simp only [xorSymbols, List.length_zipWith]
      omega
    · intro i hi _
      simp only [xorSymbols, List.length_zipWith] at hi
      have hb : i < b.length := by omega
      simp only [xorSymbols, List.getElem_zipWith, UInt8.xor_assoc]
      rw [UInt8.xor_comm b[i]]

/-- What is summed up a second time cancels out. -/
theorem foldl_xorSymbols_twice {sum : Buf} {symbols : List Buf}
    (h : ∀ s ∈ symbols, sum.length ≤ s.length) :
    symbols.foldl xorSymbols (symbols.foldl xorSymbols sum) = sum := by
  induction symbols with
  | nil => rfl
  | cons s symbols ih =>
      have hlast : xorSymbols (symbols.foldl xorSymbols (xorSymbols sum s)) s =
          symbols.foldl xorSymbols (xorSymbols (xorSymbols sum s) s) := by
        have hperm := (List.perm_append_singleton s symbols).foldl_eq (xorSymbols sum s)
          (f := xorSymbols)
        rwa [List.foldl_append] at hperm
      rw [List.foldl_cons, List.foldl_cons, hlast, xorSymbols_cancel (h s List.mem_cons_self)]
      exact ih fun t ht => h t (List.mem_cons_of_mem s ht)

namespace RaptorQ
variable {block : UInt8} {symbolSize : UInt16} {data : Buf} {k i : ℕ}
  {packets : List EncodingPacket}

theorem sourceSlice_length (hdata : data.length = k * symbolSize.toNat) (hi : i < k) :
    (sourceSlice data symbolSize i).length = symbolSize.toNat := by
  have hle : (i + 1) * symbolSize.toNat ≤ k * symbolSize.toNat := Nat.mul_le_mul_right _ hi
  rw [Nat.succ_mul] at hle
  rw [sourceSlice, List.length_take, List.length_drop]
  omega

theorem flatMap_sourceSlice (hdata : data.length = k * symbolSize.toNat) :
    (List.range k).flatMap (sourceSlice data symbolSize) = data := by
  induction k generalizing data with
  | zero => exact (List.eq_nil_of_length_eq_zero (by simpa using hdata)).symm
  | succ k ih =>
      have hdrop : (data.drop symbolSize.toNat).length = k * symbolSize.toNat := by
        rw [List.length_drop, hdata, Nat.succ_mul, Nat.add_sub_cancel]
      have hnext : ∀ i, sourceSlice data symbolSize (i + 1) =
          sourceSlice (data.drop symbolSize.toNat) symbolSize i := by
        intro i
        rw [sourceSlice, sourceSlice, List.drop_drop, Nat.succ_mul, Nat.add_comm]
      rw [List.range_succ_eq_map, List.flatMap_cons, List.flatMap_map]
      simp only [hnext]
      rw [ih hdrop, sourceSlice, Nat.zero_mul, List.drop_zero, List.take_append_drop]

theorem parity_packets (hpos : 0 < symbolSize.toNat) (hdata : data.length = k * symbolSize.toNat) :
    parity.packets block symbolSize data k 1 =
      ((List.range k).map fun i => ⟨block, i, sourceSlice data symbolSize i⟩) ++
        [⟨block, k, paritySum data symbolSize k⟩] := by
  rw [RaptorQ.packets]
  congr 1
  simp only [parity, hdata, Nat.mul_div_cancel _ hpos]
  rfl

/-- The repair symbol without all other symbols is the one that is lost. -/
theorem paritySum_lost (hdata : data.length = k * symbolSize.toNat) (hi : i < k) :
    (((List.range k).erase i).map (sourceSlice data symbolSize)).foldl xorSymbols
      (paritySum data symbolSize k) = sourceSlice data symbolSize i := by
  have hperm := ((List.perm_cons_erase (List.mem_range.mpr hi)).map
    (sourceSlice data symbolSize)).foldl_eq (List.replicate symbolSize.toNat 0) (f := xorSymbols)
  rw [List.map_cons, List.foldl_cons, xorSymbols_zeros (sourceSlice_length hdata hi)] at hperm
  rw [paritySum, hperm]
  refine foldl_xorSymbols_twice fun s hs => ?_
  obtain ⟨j, hj, rfl⟩ := List.mem_map.mp hs
  have hlt := List.mem_range.mp (List.mem_of_mem_erase hj)
  rw [sourceSlice_length hdata hi, sourceSlice_length hdata hlt]

theorem paritySum_length (hdata : data.length = k * symbolSize.toNat) :
    (paritySum data symbolSize k).length = symbolSize.toNat := by
  have hsum : ∀ (symbols : List Buf) (sum : Buf), sum.length = symbolSize.toNat →
      (∀ s ∈ symbols, s.length = symbolSize.toNat) →
      (symbols.foldl xorSymbols sum).length = symbolSize.toNat := by
    intro symbols
    induction symbols with
    | nil => exact fun _ h _ => h
    | cons s symbols ih =>
        intro sum h hall
        refine ih _ ?_ fun t ht => hall t (List.mem_cons_of_mem s ht)
        rw [xorSymbols, List.length_zipWith, h, hall s List.mem_cons_self, min_self]
  refine hsum _ _ List.length_replicate fun s hs => ?_
  obtain ⟨i, hi, rfl⟩ := List.mem_map.mp hs
  exact sourceSlice_length hdata (List.mem_range.mp hi)

/-- A packet of the block is one of its symbols or the repair symbol. -/
theorem mem_parity_packets (hpos : 0 < symbolSize.toNat)
    (hdata : data.length = k * symbolSize.toNat) {p : EncodingPacket}
    (hp : p ∈ parity.packets block symbolSize data k 1) :
    (p.encodingSymbolId < k ∧ p.data = sourceSlice data symbolSize p.encodingSymbolId) ∨
      p.encodingSymbolId = k ∧ p.data = paritySum data symbolSize k := by
  rw [parity_packets hpos hdata] at hp
  rcases List.mem_append.mp hp with hp | hp
  · obtain ⟨i, hi, rfl⟩ := List.mem_map.mp hp
    exact Or.inl ⟨List.mem_range.mp hi, rfl⟩
  · obtain rfl := List.mem_singleton.mp hp
    exact Or.inr ⟨rfl, rfl⟩

theorem symbolAt_source (hpos : 0 < symbolSize.toNat) (hdata : data.length = k * symbolSize.toNat)
    (hall : ∀ p ∈ packets, p ∈ parity.packets block symbolSize data k 1) (hi : i < k)
    (hsome : ¬ (symbolAt packets i).isNone = true) :
    symbolAt packets i = some (sourceSlice data symbolSize i) := by
  obtain ⟨d, hd⟩ := Option.isSome_iff_exists.mp (Option.isNone_eq_false_iff.mp
    ((Bool.not_eq_true _).mp hsome))
  obtain ⟨p, hfind, rfl⟩ := Option.map_eq_some_iff.mp hd
  have hid : p.encodingSymbolId = i := by simpa using List.find?_some hfind
  rcases mem_parity_packets hpos hdata (hall p (List.mem_of_find?_eq_some hfind)) with
    ⟨_, hp⟩ | ⟨hp, _⟩
  · rw [hd, hp, hid]
  · omega

/-- The sum without the symbols that are there stands in for the one that is not. -/
theorem parity_found (hdata : data.length = k * symbolSize.toNat) {lost : ℕ} (hlost : lost < k)
    (hnone : symbolAt packets lost = none)
    (hothers : ∀ i < k, i ≠ lost → symbolAt packets i = some (sourceSlice data symbolSize i)) :
    ((List.range k).flatMap fun i => (symbolAt packets i).getD
      (((List.range k).erase lost).foldl
        (fun sum i => xorSymbols sum ((symbolAt packets i).getD [])) (paritySum data symbolSize k))) =
      data := by
  have hfound : ((List.range k).erase lost).foldl
      (fun sum i => xorSymbols sum ((symbolAt packets i).getD [])) (paritySum data symbolSize k) =
        sourceSlice data symbolSize lost := by
    rw [← paritySum_lost hdata hlost, List.foldl_map]
    refine List.foldl_ext _ _ _ fun sum i hi => ?_
    obtain ⟨hne, hrange⟩ := List.nodup_range.mem_erase_iff.mp hi
    rw [hothers i (List.mem_range.mp hrange) hne, Option.getD_some]
  have hslices : ∀ i ∈ List.range k,
      (symbolAt packets i).getD (sourceSlice data symbolSize lost) =
        sourceSlice data symbolSize i := by
    intro i hi
    by_cases hne : i = lost
    · rw [hne, hnone, Option.getD_none]
    · rw [hothers i (List.mem_range.mp hi) hne, Option.getD_some]
  rw [hfound, List.flatMap_congr hslices, flatMap_sourceSlice hdata]

/-- A block has one repair symbol at most. -/
theorem repair_le_one (hpos : 0 < symbolSize.toNat) (hdata : data.length = k * symbolSize.toNat)
    (hall : ∀ p ∈ packets, p ∈ parity.packets block symbolSize data k 1) :
    ((packets.map EncodingPacket.encodingSymbolId).dedup.filter fun i => k ≤ i).length ≤ 1 := by
  have hsub : ((packets.map EncodingPacket.encodingSymbolId).dedup.filter fun i => k ≤ i) ⊆ [k] := by
    intro i hi
    obtain ⟨hin, hle⟩ := List.mem_filter.mp hi
    obtain ⟨p, hp, rfl⟩ := List.mem_map.mp (List.mem_dedup.mp hin)
    have hk := (mem_parity_packets hpos hdata (hall p hp)).resolve_left fun h =>
      absurd (of_decide_eq_true hle) (Nat.not_le.mpr h.1)
    exact List.mem_singleton.mpr hk.1
  exact (((List.nodup_dedup _).filter _).subperm hsub).length_le

/-- As many different packets of the block as it has symbols give the block. -/
theorem parity_decode (hpos : 0 < symbolSize.toNat) (hdata : data.length = k * symbolSize.toNat)
    (hall : ∀ p ∈ packets, p ∈ parity.packets block symbolSize data k 1) :
    parity.decode block symbolSize (k * symbolSize.toNat) packets =
      if k ≤ (packets.map EncodingPacket.encodingSymbolId).dedup.length then some data else none := by
  have hlength := length_distinct packets k
  have hone := repair_le_one hpos hdata hall
  simp only [parity, Nat.mul_div_cancel _ hpos]
  split
  · rename_i hnone
    rw [hnone, List.length_nil] at hlength
    have hslices : ∀ i ∈ List.range k, (symbolAt packets i).getD [] =
        sourceSlice data symbolSize i := by
      intro i hi
      rw [symbolAt_source hpos hdata hall (List.mem_range.mp hi)
        (List.filter_eq_nil_iff.mp hnone i hi), Option.getD_some]
    rw [if_pos (by omega), List.flatMap_congr hslices, flatMap_sourceSlice hdata]
  · rename_i lost hlost
    rw [hlost, List.length_singleton] at hlength
    obtain ⟨hmem, hnone⟩ := List.mem_filter.mp (hlost ▸ List.mem_singleton_self lost)
    have hothers : ∀ i < k, i ≠ lost →
        symbolAt packets i = some (sourceSlice data symbolSize i) := by
      intro i hi hne
      refine symbolAt_source hpos hdata hall hi fun hmissing => hne ?_
      have hin : i ∈ (List.range k).filter fun i => (symbolAt packets i).isNone :=
        List.mem_filter.mpr ⟨List.mem_range.mpr hi, hmissing⟩
      rw [hlost] at hin
      exact List.mem_singleton.mp hin
    cases hfind : packets.find? fun p => k ≤ p.encodingSymbolId with
    | none =>
        have hzero := find?_repair_eq_none.mp hfind
        rw [if_neg (by omega), Option.map_none]
    | some repair =>
        have hsome : ¬ ((packets.map EncodingPacket.encodingSymbolId).dedup.filter
            fun i => k ≤ i).length = 0 := by
          rw [← find?_repair_eq_none, hfind]
          exact Option.some_ne_none repair
        have hrepair : k ≤ repair.encodingSymbolId := by simpa using List.find?_some hfind
        obtain ⟨_, hsum⟩ := (mem_parity_packets hpos hdata
          (hall repair (List.mem_of_find?_eq_some hfind))).resolve_left fun h => by omega
        rw [if_pos (by omega), Option.map_some, hsum]
        exact congrArg some (parity_found hdata (List.mem_range.mp hmem)
          (Option.isNone_iff_eq_none.mp hnone) hothers)
  · rename_i hnot hnotOne
    have htwo : 2 ≤ ((List.range k).filter fun i => (symbolAt packets i).isNone).length := by
      cases h : (List.range k).filter fun i => (symbolAt packets i).isNone with
      | nil => exact absurd h hnot
      | cons lost rest =>
          cases rest with
          | nil => exact absurd h (hnotOne lost)
          | cons next rest => exact Nat.le_add_left 2 rest.length
    rw [if_neg (by omega)]

theorem parity_corrects (hpos : 0 < symbolSize.toNat) (hdata : data.length = k * symbolSize.toNat) :
    parity.Corrects block symbolSize data k 1 0 := by
  have hrepair : parity.repairPackets block symbolSize data 0 1 =
      [⟨block, 0, paritySum data symbolSize k⟩] := by
    simp only [parity, hdata, Nat.mul_div_cancel _ hpos]
    rfl
  constructor
  · rw [hrepair]
    rfl
  · intro p hp
    rw [hrepair, List.mem_singleton] at hp
    rw [hp, paritySum_length hdata]
  · intro packets hall
    rw [parity_decode hpos hdata hall]
    split
    · exact Or.inr rfl
    · exact Or.inl rfl
  · intro packets hall henough
    rw [parity_decode hpos hdata hall, if_pos (by omega)]
    exact Option.some_ne_none data

end RaptorQ

/-! A burst of two takes a frame of each of two blocks, that have two frames and their sum
each. -/

def twoGroups : List (List (Buf × Bool)) :=
  [[([1, 2], false), ([9], false)], [([3], true), ([4, 5], false)]]

def twoBlocks : List RaptorQFecEncoder :=
  [⟨0, 2, [[1, 2], [9]], 8, false, 0⟩, ⟨1, 2, [[3], [4, 5]], 8, true, 0⟩]

/-- What the burst has left, the last block before the first, one symbol of it twice. -/
def restArrives : List DecoderOp :=
  [.tryDecode 5 1, .addSymbol 6 ⟨1, 2, true, [3, 0, 7, 5, 0, 0, 0, 0]⟩, .tryDecode 7 1,
    .addSymbol 8 ⟨0, 2, true, [3, 0, 8, 2, 0, 0, 0, 0]⟩,
    .addSymbol 9 ⟨1, 2, true, [3, 0, 7, 5, 0, 0, 0, 0]⟩,
    .addSymbol 10 ⟨1, 1, false, [2, 0, 4, 5, 0, 0, 0, 0]⟩, .tryDecode 11 1,
    .addSymbol 12 ⟨0, 1, false, [1, 0, 9, 0, 0, 0, 0, 0]⟩]

theorem twoBlocks_correctable : ∀ full ∈ twoBlocks, full.Correctable .parity 0.5 0 := by
  intro full hfull
  have hcases : full = ⟨0, 2, [[1, 2], [9]], 8, false, 0⟩ ∨
      full = ⟨1, 2, [[3], [4, 5]], 8, true, 0⟩ := by
    simpa [twoBlocks] using hfull
  have hcount : full.repairCount 0.5 = 1 := by
    rcases hcases with rfl | rfl <;> decide +kernel
  rcases hcases with rfl | rfl
  · exact ⟨hcount ▸ RaptorQ.parity_corrects (by decide) (by decide), by decide,
      by decide +kernel, by decide, by decide⟩
  · exact ⟨hcount ▸ RaptorQ.parity_corrects (by decide) (by decide), by decide,
      by decide +kernel, by decide, by decide⟩

theorem two_blocks_recovered :
    let r := (Receiving.start 2 8).run .parity restArrives
    (∀ a ∈ r.answers, a.1 = 0 + UInt16.ofNat 1 → a.2 = none ∨ a.2 = some [[3], [4, 5]]) ∧
      ∀ now, (r.dec.tryDecode .parity now (0 + UInt16.ofNat 1)).1 = some [[3], [4, 5]] :=
  burst_recovered .withDefaultDepth (show (RaptorQFecEncoder.new 2 8).sourceSymbols = [] from rfl)
    (show (RaptorQFecEncoder.new 2 8).fillAll twoGroups = .ok twoBlocks from rfl) (by decide) (by decide)
    twoBlocks_correctable (by decide +kernel)
    (show (2 + (twoGroups.length - 1)) / twoGroups.length + 0 ≤ 1 by decide)
    (show ∀ s ∈ received restArrives, s ∈ transmit .withDefaultDepth .parity 0.5 twoBlocks by
      decide +kernel)
    (show ∀ s ∈ spared (transmit .withDefaultDepth .parity 0.5 twoBlocks) 0 2,
      s ∈ received restArrives by decide +kernel)
    (show ∀ op ∈ restArrives, 5 ≤ op.now ∧ op.now < 5 + blockStale by decide)
    (show twoGroups[1]? = some [([3], true), ([4, 5], false)] from rfl)

end Wzp.Fec
