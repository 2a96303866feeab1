import Wzp.Video.Transport

/-!
# H.264 access units in packets

An access unit is split at its start codes, and a NAL unit that is too long for a
packet is cut into fragments, which the depacketizer puts together again.
-/
namespace Wzp.Video
open Bytes

structure FramedPacket where
  payload : Buf
  isFrameEnd : Bool
  deriving DecidableEq, Repr

/-! ## Framing -/

/-- The bytes up to the next start code, and the rest. The last three bytes are
not looked at: no NAL unit begins after them. -/
def takeNal : Buf → Buf × Buf
  | a :: b :: c :: d :: rest =>
      if a = 0 ∧ b = 0 ∧ (c = 1 ∨ c = 0 ∧ rest ≠ [] ∧ d = 1) then ([], a :: b :: c :: d :: rest)
      else (a :: (takeNal (b :: c :: d :: rest)).1, (takeNal (b :: c :: d :: rest)).2)
  | short => (short, [])

theorem length_takeNal_le (data : Buf) : (takeNal data).2.length ≤ data.length := by
  fun_induction takeNal data with
  | case1 => exact Nat.le_refl _
  | case2 a b c d rest hmore ih => exact Nat.le_succ_of_le ih
  | case3 => exact Nat.zero_le _

theorem length_rest_lt {data rest : Buf} (h : data.dropWhile (· == 0) = 1 :: rest) :
    (takeNal rest).2.length < data.length := by
  have hlength := (List.dropWhile_suffix (l := data) (· == 0)).length_le
  rw [h, List.length_cons] at hlength
  exact Nat.lt_of_le_of_lt (length_takeNal_le rest) hlength

def splitNals (data : Buf) : List Buf :=
  match hskip : data.dropWhile (· == 0) with
  | 1 :: rest =>
      have := length_rest_lt hskip
      if (takeNal rest).1.isEmpty then splitNals (takeNal rest).2
      else (takeNal rest).1 :: splitNals (takeNal rest).2
  | _ => []
termination_by data.length

structure H264Framer where
  maxPayloadSize : ℕ

namespace H264Framer

def fuIndicator (header : UInt8) : UInt8 := header &&& 0x60 ||| 28

def fuHeader (isFirst isLast : Bool) (nalType : UInt8) : UInt8 :=
  (if isFirst then 0x80 else 0) ||| (if isLast then 0x40 else 0) ||| nalType

def fragment (header : UInt8) (totalFrags : ℕ) (isLastNal : Bool) (fragIdx : ℕ) (data : Buf) :
    FramedPacket where
  payload := fuIndicator header ::
    fuHeader (fragIdx == 0) (fragIdx + 1 == totalFrags) (header &&& 0x1F) :: data
  isFrameEnd := isLastNal && fragIdx + 1 == totalFrags

def fragments (self : H264Framer) (header : UInt8) (payload : Buf) (isLastNal : Bool) :
    List FramedPacket :=
  let pieces := chunks (self.maxPayloadSize - 2) payload
  pieces.zipIdx.map fun (data, fragIdx) =>
    fragment header pieces.length isLastNal fragIdx data

/-- Packets with no room for data are divided by zero, or never end. -/
def frameNal (self : H264Framer) (nal : Buf) (isLastNal : Bool) : Option (List FramedPacket) :=
  match nal with
  | header :: payload =>
      if nal.length ≤ self.maxPayloadSize then some [⟨nal, isLastNal⟩]
      else if self.maxPayloadSize ≤ 2 then none
      else some (self.fragments header payload isLastNal)
  | [] => some [⟨[], isLastNal⟩]

def frame (self : H264Framer) (accessUnit : Buf) : Option (List FramedPacket) := do
  let nals := splitNals accessUnit
  let packets ← nals.zipIdx.mapM fun (nal, idx) => self.frameNal nal (idx + 1 == nals.length)
  return packets.flatten

end H264Framer

/-! ## Depacketizing -/

def startCode : Buf := [0, 0, 1]

structure H264Depacketizer where
  buffer : Buf
  inFragment : Bool
  fragHeader : UInt8

namespace H264Depacketizer

def new : H264Depacketizer := ⟨[], false, 0⟩

def startNal (self : H264Depacketizer) : H264Depacketizer :=
  { self with buffer := self.buffer ++ startCode }

def maybeEmit (self : H264Depacketizer) (isFrameEnd : Bool) : H264Depacketizer × Option Buf :=
  if isFrameEnd && !self.inFragment then
    if self.buffer.isEmpty then (self, none) else ({ self with buffer := [] }, some self.buffer)
  else (self, none)

/-- A first fragment has the header of its NAL unit in two parts. -/
def startFragment (self : H264Depacketizer) (indicator fuHeader : UInt8) : H264Depacketizer :=
  let header := indicator &&& 0xE0 ||| fuHeader &&& 0x1F
  { self.startNal with
    buffer := self.startNal.buffer ++ [header], inFragment := true, fragHeader := header }

def push (self : H264Depacketizer) (payload : Buf) (isFrameEnd : Bool) :
    H264Depacketizer × Option Buf :=
  match payload with
  | [] => self.maybeEmit isFrameEnd
  | indicator :: rest =>
      if indicator &&& 0x1F = 28 then
        match rest with
        | [] => maybeEmit { self with inFragment := false } isFrameEnd
        | fuHeader :: data =>
            let self :=
              if fuHeader &&& 0x80 ≠ 0 then self.startFragment indicator fuHeader else self
            let self :=
              if self.inFragment then { self with buffer := self.buffer ++ data } else self
            let self := if fuHeader &&& 0x40 ≠ 0 then { self with inFragment := false } else self
            self.maybeEmit isFrameEnd
      else
        let self := startNal { self with inFragment := false }
        maybeEmit { self with buffer := self.buffer ++ payload } isFrameEnd

/-- Packets that come one after the other, and what is returned for each. -/
def pushAll : H264Depacketizer → List FramedPacket → H264Depacketizer × List (Option Buf)
  | self, [] => (self, [])
  | self, p :: rest =>
      let (next, out) := self.push p.payload p.isFrameEnd
      ((next.pushAll rest).1, out :: (next.pushAll rest).2)

end H264Depacketizer

/-! ## Access units -/

/-- A NAL unit of H.264: its bytes contain no start code and do not end in a zero. -/
structure NalUnit where
  header : UInt8
  payload : Buf
  forbiddenBit : header &&& 0x80 = 0
  nalType : 1 ≤ header &&& 0x1F ∧ header &&& 0x1F ≤ 23
  noStartCode : ¬ [0, 0, 0] <:+: header :: payload ∧ ¬ [0, 0, 1] <:+: header :: payload
  last : (header :: payload).getLast (List.cons_ne_nil header payload) ≠ 0

namespace NalUnit

def bytes (u : NalUnit) : Buf := u.header :: u.payload

end NalUnit

/-- An access unit in the Annex-B format, each NAL unit after a start code of three or
of four bytes. -/
def annexB (units : List (NalUnit × Bool)) : Buf :=
  units.flatMap fun (u, long) => (if long then 0 :: startCode else startCode) ++ u.bytes

/-- Bytes without a start code in them, which do not end in a zero. -/
structure PlainNal (bytes : Buf) : Prop where
  nonempty : bytes ≠ []
  noStartCode : ¬ [0, 0, 0] <:+: bytes ∧ ¬ [0, 0, 1] <:+: bytes
  last : bytes.getLast nonempty ≠ 0

theorem NalUnit.plain (u : NalUnit) : PlainNal u.bytes :=
  ⟨List.cons_ne_nil _ _, u.noStartCode, u.last⟩

/-- Such bytes, each after a start code of three or of four bytes. -/
def startCoded (nals : List (Buf × Bool)) : Buf :=
  nals.flatMap fun (bytes, long) => (if long then 0 :: startCode else startCode) ++ bytes

theorem annexB_eq (units : List (NalUnit × Bool)) :
    annexB units = startCoded (units.map fun u => (u.1.bytes, u.2)) := by
  rw [startCoded, List.flatMap_map]
  rfl

/-- The end of an access unit, where a NAL unit ends. -/
inductive UnitEnd : Buf → Prop where
  | nil : UnitEnd []
  | three (header : UInt8) (rest : Buf) : UnitEnd (0 :: 0 :: 1 :: header :: rest)
  | four (header : UInt8) (rest : Buf) : UnitEnd (0 :: 0 :: 0 :: 1 :: header :: rest)

theorem unitEnd_startCoded {nals : List (Buf × Bool)} (h : ∀ nal ∈ nals, PlainNal nal.1) :
    UnitEnd (startCoded nals) := by
  cases nals with
  | nil => exact .nil
  | cons nal nals =>
      obtain ⟨bytes, long⟩ := nal
      obtain ⟨header, payload, rfl⟩ :=
        List.exists_cons_of_ne_nil (h (bytes, long) List.mem_cons_self).nonempty
      cases long with
      | false => exact .three header (payload ++ startCoded nals)
      | true => exact .four header (payload ++ startCoded nals)

theorem takeNal_unitEnd {rest : Buf} (h : UnitEnd rest) : takeNal rest = ([], rest) := by
  cases h with
  | nil => rfl
  | three header rest => rw [takeNal, if_pos ⟨rfl, rfl, Or.inl rfl⟩]
  | four header rest => rw [takeNal, if_pos ⟨rfl, rfl, Or.inr ⟨rfl, List.cons_ne_nil _ _, rfl⟩⟩]

theorem takeNal_cons {a : UInt8} {tail : Buf} (h : ∀ c, c = 0 ∨ c = 1 → ¬ [0, 0, c] <+: a :: tail) :
    takeNal (a :: tail) = (a :: (takeNal tail).1, (takeNal tail).2) := by
  match tail with
  | [] | [_] | [_, _] => rfl
  | b :: c :: d :: rest =>
      rw [takeNal, if_neg]
      rintro ⟨rfl, rfl, hc⟩
      refine h c ?_ ⟨d :: rest, rfl⟩
      exact hc.symm.imp And.left id

/-- The last byte is not zero, so a start code after it begins after it. -/
theorem not_prefix_append {code : UInt8} {bytes rest : Buf} (hne : bytes ≠ [])
    (hfree : ¬ [0, 0, code] <:+: bytes) (hlast : bytes.getLast hne ≠ 0) :
    ¬ [0, 0, code] <+: bytes ++ rest := by
  rintro ⟨more, hmore⟩
  match bytes with
  | [a] => exact hlast (List.cons.inj hmore).1.symm
  | [a, b] => exact hlast (List.cons.inj (List.cons.inj hmore).2).1.symm
  | a :: b :: c :: bytes =>
      injection hmore with ha hmore
      injection hmore with hb hmore
      injection hmore with hc hmore
      subst ha hb hc
      exact hfree ⟨[], bytes, rfl⟩

/-- A scanner that stops at the start codes takes a NAL unit to its end: none of its zeros
is the first of a start code. -/
theorem scan_append {scan : Buf → Buf × Buf} (hend : ∀ rest, UnitEnd rest → scan rest = ([], rest))
    (hcons : ∀ a tail, (∀ c, c = 0 ∨ c = 1 → ¬ [0, 0, c] <+: a :: tail) →
      scan (a :: tail) = (a :: (scan tail).1, (scan tail).2))
    {bytes rest : Buf} (hrest : UnitEnd rest)
    (hfree : ¬ [0, 0, 0] <:+: bytes ∧ ¬ [0, 0, 1] <:+: bytes)
    (hlast : ∀ h : bytes ≠ [], bytes.getLast h ≠ 0) : scan (bytes ++ rest) = (bytes, rest) := by
  induction bytes with
  | nil => exact hend rest hrest
  | cons a bytes ih =>
      have htail : ∀ code : Buf, code <:+: bytes → code <:+: a :: bytes := fun code h =>
        h.trans (List.suffix_cons a bytes).isInfix
      have hmore := ih ⟨fun h => hfree.1 (htail _ h), fun h => hfree.2 (htail _ h)⟩ (fun h => by
        rw [← List.getLast_cons h]
        exact hlast (List.cons_ne_nil a bytes))
      have hnone : ∀ c, c = 0 ∨ c = 1 → ¬ [0, 0, c] <+: a :: (bytes ++ rest) := by
        rintro c (rfl | rfl)
        · exact not_prefix_append (List.cons_ne_nil a bytes) hfree.1 (hlast _)
        · exact not_prefix_append (List.cons_ne_nil a bytes) hfree.2 (hlast _)
      rw [List.cons_append, hcons a _ hnone, hmore]

theorem splitNals_of_skip {data rest : Buf} (h : data.dropWhile (· == 0) = 1 :: rest)
    (hnal : (takeNal rest).1 ≠ []) :
    splitNals data = (takeNal rest).1 :: splitNals (takeNal rest).2 := by
  rw [splitNals]
  split
  · rename_i rest' hskip
    obtain rfl := (List.cons.inj (h.symm.trans hskip)).2
    exact if_neg (fun hempty => hnal (List.isEmpty_iff.mp hempty))
  · rename_i hskip
    exact absurd h (hskip rest)

/-- The NAL units are found, whichever start codes stand before them. -/
theorem splitNals_startCoded {nals : List (Buf × Bool)} (h : ∀ nal ∈ nals, PlainNal nal.1) :
    splitNals (startCoded nals) = nals.map Prod.fst := by
  induction nals with
  | nil =>
      rw [splitNals]
      rfl
  | cons nal nals ih =>
      obtain ⟨bytes, long⟩ := nal
      have hplain := h (bytes, long) List.mem_cons_self
      have hmore : ∀ nal ∈ nals, PlainNal nal.1 := fun nal hnal => h nal (List.mem_cons_of_mem _ hnal)
      have htake : takeNal (bytes ++ startCoded nals) = (bytes, startCoded nals) :=
        scan_append (fun _ => takeNal_unitEnd) (fun _ _ => takeNal_cons) (unitEnd_startCoded hmore)
          hplain.noStartCode fun _ => hplain.last
      have hskip : (startCoded ((bytes, long) :: nals)).dropWhile (· == 0) =
          1 :: (bytes ++ startCoded nals) := by
        cases long <;> rfl
      rw [splitNals_of_skip hskip (by rw [htake]; exact hplain.nonempty), htake, ih hmore]
      rfl

theorem splitNals_annexB (units : List (NalUnit × Bool)) :
    splitNals (annexB units) = units.map fun u => u.1.bytes := by
  have hplain : ∀ nal ∈ units.map fun u => (u.1.bytes, u.2), PlainNal nal.1 := by
    intro nal hnal
    obtain ⟨u, -, rfl⟩ := List.mem_map.mp hnal
    exact u.1.plain
  rw [annexB_eq, splitNals_startCoded hplain, List.map_map]
  rfl

/-! ## What is made of a packet -/

namespace H264Depacketizer
open H264Framer
variable {d : H264Depacketizer} {b : Buf} {header : UInt8} {data : Buf}

theorem fuIndicator_nalType : ∀ header : UInt8, fuIndicator header &&& 0x1F = 28 :=
  forall_byte (by decide +kernel)

theorem fuHeader_start (isFirst isLast : Bool) :
    ∀ header : UInt8, fuHeader isFirst isLast (header &&& 0x1F) &&& 0x80 ≠ 0 ↔ isFirst = true := by
  cases isFirst <;> cases isLast <;> exact forall_byte (by decide +kernel)

theorem fuHeader_end (isFirst isLast : Bool) :
    ∀ header : UInt8, fuHeader isFirst isLast (header &&& 0x1F) &&& 0x40 ≠ 0 ↔ isLast = true := by
  cases isFirst <;> cases isLast <;> exact forall_byte (by decide +kernel)

/-- The two parts of the header give it back. -/
theorem header_of_parts (isFirst isLast : Bool) : ∀ header : UInt8, header &&& 0x80 = 0 →
    fuIndicator header &&& 0xE0 ||| fuHeader isFirst isLast (header &&& 0x1F) &&& 0x1F = header := by
  cases isFirst <;> cases isLast <;> exact forall_byte (by decide +kernel)

theorem push_single (d : H264Depacketizer) (hheader : header &&& 0x1F ≠ 28) (isFrameEnd : Bool) :
    d.push (header :: data) isFrameEnd =
      maybeEmit { d with
        buffer := d.buffer ++ startCode ++ header :: data, inFragment := false } isFrameEnd := by
  change (if header &&& 0x1F = 28 then _ else _) = _
  rw [if_neg hheader]
  rfl

variable {totalFrags i : ℕ} {isLastNal : Bool}

theorem push_fragment (d : H264Depacketizer) (isFrameEnd : Bool) :
    d.push (fragment header totalFrags isLastNal i data).payload isFrameEnd =
      (let self := if i = 0 then
          d.startFragment (fuIndicator header) (fuHeader (i == 0) (i + 1 == totalFrags) (header &&& 0x1F))
        else d
      let self := if self.inFragment then { self with buffer := self.buffer ++ data } else self
      let self := if i + 1 = totalFrags then { self with inFragment := false } else self
      self.maybeEmit isFrameEnd) := by
  rw [fragment, push, if_pos (fuIndicator_nalType header)]
  simp only [fuHeader_start, fuHeader_end, beq_iff_eq]

theorem push_first (d : H264Depacketizer) (hforbidden : header &&& 0x80 = 0) (isFrameEnd : Bool) :
    d.push (fragment header totalFrags isLastNal 0 data).payload isFrameEnd =
      maybeEmit ⟨d.buffer ++ startCode ++ header :: data, !(0 + 1 == totalFrags), header⟩
        isFrameEnd := by
  rw [push_fragment, if_pos rfl, startFragment, header_of_parts _ _ _ hforbidden]
  simp only [if_true, startNal, List.append_assoc, List.singleton_append]
  by_cases hend : 0 + 1 = totalFrags
  · rw [if_pos hend, beq_iff_eq.mpr hend]
    rfl
  · rw [if_neg hend, beq_eq_false_iff_ne.mpr hend]
    rfl

theorem push_next (hi : i ≠ 0) (hd : d.inFragment = true) (isFrameEnd : Bool) :
    d.push (fragment header totalFrags isLastNal i data).payload isFrameEnd =
      maybeEmit ⟨d.buffer ++ data, !(i + 1 == totalFrags), d.fragHeader⟩ isFrameEnd := by
  rw [push_fragment, if_neg hi]
  simp only [hd, if_true]
  by_cases hend : i + 1 = totalFrags
  · rw [if_pos hend, beq_iff_eq.mpr hend]
    rfl
  · rw [if_neg hend, beq_eq_false_iff_ne.mpr hend]
    rfl

/-- A fragment whose predecessors are missing is left out. -/
theorem push_late (hi : i ≠ 0) (hd : d.inFragment = false) (isFrameEnd : Bool) :
    d.push (fragment header totalFrags isLastNal i data).payload isFrameEnd =
      d.maybeEmit isFrameEnd := by
  rw [push_fragment, if_neg hi]
  simp only [hd, Bool.false_eq_true, if_false]
  split
  · rw [← hd]
  · rfl

/-- Between two NAL units, with `b` in the buffer. -/
structure Settled (d : H264Depacketizer) (b : Buf) : Prop where
  buffer : d.buffer = b
  inFragment : d.inFragment = false

/-- At the end of a NAL unit the buffer is returned if this was the last one. -/
theorem maybeEmit_of_settled (h : d.Settled b) (hb : b ≠ []) (isFrameEnd : Bool) :
    (d.maybeEmit isFrameEnd).1.Settled (if isFrameEnd then [] else b) ∧
      (d.maybeEmit isFrameEnd).2 = if isFrameEnd then some b else none := by
  obtain ⟨rfl, hin⟩ := h
  cases isFrameEnd with
  | false => exact ⟨⟨rfl, hin⟩, rfl⟩
  | true =>
      have hemit : d.maybeEmit true = ({ d with buffer := [] }, some d.buffer) := by
        rw [maybeEmit, hin, if_pos (show (true && !false) = true from rfl),
          if_neg (fun h => hb (List.isEmpty_iff.mp h))]
      rw [hemit]
      exact ⟨⟨rfl, hin⟩, rfl⟩

theorem pushAll_cons (d : H264Depacketizer) (p : FramedPacket) (ps : List FramedPacket) :
    d.pushAll (p :: ps) = (((d.push p.payload p.isFrameEnd).1.pushAll ps).1,
      (d.push p.payload p.isFrameEnd).2 :: ((d.push p.payload p.isFrameEnd).1.pushAll ps).2) := rfl

theorem pushAll_append (d : H264Depacketizer) (ps qs : List FramedPacket) :
    d.pushAll (ps ++ qs) =
      (((d.pushAll ps).1.pushAll qs).1, (d.pushAll ps).2 ++ ((d.pushAll ps).1.pushAll qs).2) := by
  induction ps generalizing d with
  | nil => rfl
  | cons p ps ih => rw [List.cons_append, pushAll_cons, ih, pushAll_cons, List.cons_append]

/-! ## What is made of the packets of an access unit -/

/-- The packets add to the buffer, and nothing is returned before the last of them; with
it the whole is, if it is the end of a frame. -/
structure Adds (d : H264Depacketizer) (ps : List FramedPacket) (content : Buf) (isEnd : Bool) :
    Prop where
  settled : (d.pushAll ps).1.Settled (if isEnd then [] else d.buffer ++ content)
  returned : (d.pushAll ps).2 = List.replicate (ps.length - 1) none ++
    [if isEnd then some (d.buffer ++ content) else none]

variable {d' : H264Depacketizer} {p : FramedPacket} {ps qs : List FramedPacket}
  {part content : Buf} {isEnd : Bool}

theorem adds_last (hpush : d.push p.payload p.isFrameEnd = d'.maybeEmit p.isFrameEnd)
    (hd' : d'.Settled (d.buffer ++ content)) (hne : d.buffer ++ content ≠ [])
    (hend : p.isFrameEnd = isEnd) : Adds d [p] content isEnd := by
  have hemit := maybeEmit_of_settled hd' hne isEnd
  constructor
  · rw [pushAll_cons, hpush, hend]
    exact hemit.1
  · rw [pushAll_cons, hpush, hend, hemit.2]
    rfl

theorem Adds.cons (h : Adds d' ps content isEnd)
    (hpush : d.push p.payload p.isFrameEnd = (d', none)) (hd' : d'.buffer = d.buffer ++ part)
    (hps : ps ≠ []) : Adds d (p :: ps) (part ++ content) isEnd := by
  have hlength : (p :: ps).length - 1 = ps.length - 1 + 1 :=
    (Nat.succ_pred (mt List.length_eq_zero_iff.mp hps)).symm
  constructor
  · rw [pushAll_cons, hpush, ← List.append_assoc, ← hd']
    exact h.settled
  · rw [pushAll_cons, hpush, h.returned, hlength, ← List.append_assoc, ← hd']
    rfl

theorem Adds.append (h : Adds d ps part false) (hps : ps ≠ []) (hqs : qs ≠ [])
    (h' : ∀ d', d'.Settled (d.buffer ++ part) → Adds d' qs content isEnd) :
    Adds d (ps ++ qs) (part ++ content) isEnd := by
  have hrest := h' _ h.settled
  have hbuffer : (d.pushAll ps).1.buffer = d.buffer ++ part := h.settled.buffer
  have hlength : (ps ++ qs).length - 1 = ps.length - 1 + (1 + (qs.length - 1)) := by
    have hpos := List.length_pos_iff.mpr hps
    have hpos' := List.length_pos_iff.mpr hqs
    rw [List.length_append]
    omega
  constructor
  · rw [pushAll_append, ← List.append_assoc, ← hbuffer]
    exact hrest.settled
  · rw [pushAll_append, h.returned, hrest.returned, hlength, List.replicate_add,
      List.replicate_add, ← List.append_assoc d.buffer, ← hbuffer]
    simp only [Bool.false_eq_true, if_false, List.append_assoc]
    rfl

theorem isFrameEnd_fragment_of_ne (h : i + 1 ≠ totalFrags) :
    (fragment header totalFrags isLastNal i data).isFrameEnd = false := by
  change (isLastNal && i + 1 == totalFrags) = false
  rw [beq_eq_false_iff_ne.mpr h, Bool.and_false]

theorem isFrameEnd_fragment_last (h : i + 1 = totalFrags) :
    (fragment header totalFrags isLastNal i data).isFrameEnd = isLastNal := by
  change (isLastNal && i + 1 == totalFrags) = isLastNal
  rw [beq_iff_eq.mpr h, Bool.and_true]

/-- The fragments after the first one complete the NAL unit. -/
theorem adds_fragments {pieces : List Buf} (hpieces : pieces ≠ []) (hi : i ≠ 0)
    (htotal : totalFrags = i + pieces.length) (hd : d.inFragment = true) (hb : d.buffer ≠ []) :
    Adds d ((pieces.zipIdx i).map fun (data, k) => fragment header totalFrags isLastNal k data)
      pieces.flatten isLastNal := by
  induction pieces generalizing d i with
  | nil => exact absurd rfl hpieces
  | cons data pieces ih =>
      rw [List.zipIdx_cons, List.map_cons, List.flatten_cons]
      dsimp only
      cases pieces with
      | nil =>
          have hend : i + 1 = totalFrags := htotal.symm
          rw [List.flatten_nil, List.append_nil]
          refine adds_last (push_next hi hd _) ⟨rfl, ?_⟩ ?_ (isFrameEnd_fragment_last hend)
          · rw [beq_iff_eq.mpr hend]
            rfl
          · exact fun h => hb (List.append_eq_nil_iff.mp h).1
      | cons data' pieces =>
          have hmore : i + 1 ≠ totalFrags := by
            rw [htotal, List.length_cons, List.length_cons]
            omega
          have hpush : d.push (fragment header totalFrags isLastNal i data).payload
              (fragment header totalFrags isLastNal i data).isFrameEnd =
                (⟨d.buffer ++ data, true, d.fragHeader⟩, none) := by
            rw [push_next hi hd, isFrameEnd_fragment_of_ne hmore, beq_eq_false_iff_ne.mpr hmore]
            rfl
          refine Adds.cons (ih (List.cons_ne_nil data' pieces) (Nat.succ_ne_zero i) ?_ rfl ?_)
            hpush rfl ?_
          · rw [htotal, List.length_cons]
            omega
          · exact fun h => hb (List.append_eq_nil_iff.mp h).1
          · exact fun h => nomatch h

/-- All fragments together are the NAL unit. -/
theorem adds_nal (d : H264Depacketizer) (isLastNal : Bool) {pieces : List Buf}
    (hpieces : pieces ≠ []) (hforbidden : header &&& 0x80 = 0) :
    Adds d (pieces.zipIdx.map fun (data, k) => fragment header pieces.length isLastNal k data)
      (startCode ++ header :: pieces.flatten) isLastNal := by
  cases pieces with
  | nil => exact absurd rfl hpieces
  | cons data pieces =>
      have hne : d.buffer ++ (startCode ++ header :: data) ≠ [] :=
        fun h => nomatch (List.append_eq_nil_iff.mp h).2
      rw [List.zipIdx_cons, List.map_cons, List.flatten_cons]
      dsimp only
      cases pieces with
      | nil =>
          rw [List.flatten_nil, List.append_nil]
          refine adds_last (push_first d hforbidden _) ⟨?_, rfl⟩ hne (isFrameEnd_fragment_last rfl)
          exact List.append_assoc _ _ _
      | cons data' pieces =>
          have hmore : 0 + 1 ≠ (data :: data' :: pieces).length := by
            rw [List.length_cons, List.length_cons]
            omega
          have hpush : d.push
              (fragment header (data :: data' :: pieces).length isLastNal 0 data).payload
              (fragment header (data :: data' :: pieces).length isLastNal 0 data).isFrameEnd =
                (⟨d.buffer ++ startCode ++ header :: data, true, header⟩, none) := by
            rw [push_first d hforbidden, isFrameEnd_fragment_of_ne hmore,
              beq_eq_false_iff_ne.mpr hmore]
            rfl
          rw [← List.append_assoc] at hne
          change Adds d _ ((startCode ++ header :: data) ++ (data' :: pieces).flatten) isLastNal
          exact Adds.cons (adds_fragments (List.cons_ne_nil data' pieces) (Nat.succ_ne_zero 0)
            (Nat.add_comm _ 1) rfl hne) hpush (List.append_assoc _ _ _) (fun h => nomatch h)

end H264Depacketizer

/-! ## The round trip -/

/-- Packets that fit, the last one the end of the frame if it is, and from which
`content` is got. -/
structure Framed (maxPayloadSize : ℕ) (ps : List FramedPacket) (content : Buf) (isEnd : Bool) :
    Prop where
  nonempty : ps ≠ []
  small : ∀ p ∈ ps, p.payload.length ≤ maxPayloadSize
  frameEnd : ps.map (·.isFrameEnd) = List.replicate (ps.length - 1) false ++ [isEnd]
  adds : ∀ d : H264Depacketizer, d.inFragment = false → d.Adds ps content isEnd

theorem Framed.append {maxPayloadSize : ℕ} {ps qs : List FramedPacket} {part content : Buf}
    {isEnd : Bool} (h : Framed maxPayloadSize ps part false)
    (h' : Framed maxPayloadSize qs content isEnd) :
    Framed maxPayloadSize (ps ++ qs) (part ++ content) isEnd where
  nonempty := List.append_ne_nil_of_left_ne_nil h.nonempty qs
  small := fun p hp => (List.mem_append.mp hp).elim (h.small p) (h'.small p)
  frameEnd := by
    have hpos := List.length_pos_iff.mpr h.nonempty
    have hpos' := List.length_pos_iff.mpr h'.nonempty
    have hlength : (ps ++ qs).length - 1 = ps.length - 1 + (1 + (qs.length - 1)) := by
      rw [List.length_append]
      omega
    rw [List.map_append, h.frameEnd, h'.frameEnd, hlength, List.replicate_add,
      List.replicate_add, List.append_assoc, List.append_assoc, List.append_assoc]
    rfl
  adds := fun d hd => (h.adds d hd).append h.nonempty h'.nonempty fun d' hd' =>
    h'.adds d' hd'.inFragment

namespace H264Framer
variable {self : H264Framer} {header : UInt8} {payload : Buf}

theorem length_chunk_le {size : ℕ} {data piece : Buf} (h : piece ∈ chunks size data) :
    piece.length ≤ size := by
  obtain ⟨i, -, rfl⟩ := List.mem_map.mp h
  exact List.length_take_le size _

theorem chunks_ne_nil {size : ℕ} {data : Buf} (hsize : 0 < size) (hdata : data ≠ []) :
    chunks size data ≠ [] := by
  have hpos := List.length_pos_iff.mpr hdata
  rw [chunks, ne_eq, List.map_eq_nil_iff, List.range_eq_nil]
  exact Nat.ne_of_gt (Nat.div_pos (by omega) hsize)

theorem framed_fragments (hmax : 3 ≤ self.maxPayloadSize) (hpayload : payload ≠ [])
    (hforbidden : header &&& 0x80 = 0) (isLastNal : Bool) :
    Framed self.maxPayloadSize (self.fragments header payload isLastNal)
      (startCode ++ header :: payload) isLastNal := by
  have hsize : 0 < self.maxPayloadSize - 2 := by omega
  have hpieces := chunks_ne_nil hsize hpayload
  refine ⟨?_, ?_, ?_, fun d _ => ?_⟩
  · rw [fragments, ne_eq, List.map_eq_nil_iff, List.zipIdx_eq_nil_iff]
    exact hpieces
  · intro p hp
    obtain ⟨⟨data, i⟩, hmem, rfl⟩ := List.mem_map.mp hp
    have hdata : data.length ≤ self.maxPayloadSize - 2 :=
      length_chunk_le (List.fst_mem_of_mem_zipIdx hmem)
    change data.length + 1 + 1 ≤ self.maxPayloadSize
    omega
  · have hpos := List.length_pos_iff.mpr hpieces
    refine List.ext_getElem ?_ fun k hk hk' => ?_
    · simp only [fragments, List.length_map, List.length_zipIdx, List.length_append,
        List.length_replicate, List.length_singleton]
      omega
    · simp only [fragments, List.length_map, List.length_zipIdx] at hk
      simp only [fragments, List.getElem_map, List.getElem_zipIdx, List.length_map,
        List.length_zipIdx, fragment, Nat.zero_add]
      by_cases hlast : k + 1 = (chunks (self.maxPayloadSize - 2) payload).length
      · rw [List.getElem_append_right (by rw [List.length_replicate]; omega),
          List.getElem_singleton, beq_iff_eq.mpr hlast, Bool.and_true]
      · rw [List.getElem_append_left (by rw [List.length_replicate]; omega),
          List.getElem_replicate, beq_eq_false_iff_ne.mpr hlast, Bool.and_false]
  · have hadds := H264Depacketizer.adds_nal d isLastNal hpieces hforbidden
    rw [flatten_chunks hsize] at hadds
    exact hadds

theorem framed_nal (hmax : 3 ≤ self.maxPayloadSize) (u : NalUnit) (isLastNal : Bool) :
    ∃ ps, self.frameNal u.bytes isLastNal = some ps ∧
      Framed self.maxPayloadSize ps (startCode ++ u.bytes) isLastNal := by
  by_cases hfits : u.bytes.length ≤ self.maxPayloadSize
  · refine ⟨[⟨u.bytes, isLastNal⟩], if_pos hfits, List.cons_ne_nil _ _, ?_, rfl, fun d _ => ?_⟩
    · intro p hp
      obtain rfl := List.mem_singleton.mp hp
      exact hfits
    · have htype : u.header &&& 0x1F ≠ 28 := by
        intro h
        have hle := u.nalType.2
        rw [h] at hle
        exact absurd hle (by decide)
      refine H264Depacketizer.adds_last (H264Depacketizer.push_single d htype isLastNal)
        ⟨List.append_assoc _ _ _, rfl⟩ ?_ rfl
      exact fun h => nomatch (List.append_eq_nil_iff.mp h).2
  · have hpayload : u.payload ≠ [] := by
      intro h
      rw [NalUnit.bytes, h, List.length_singleton] at hfits
      omega
    refine ⟨self.fragments u.header u.payload isLastNal, ?_,
      framed_fragments hmax hpayload u.forbiddenBit isLastNal⟩
    exact (if_neg hfits).trans (if_neg (by omega))

/-- The NAL units of an access unit one after the other. -/
theorem framed_units (hmax : 3 ≤ self.maxPayloadSize) {units : List NalUnit} (hunits : units ≠ [])
    {i total : ℕ} (htotal : total = i + units.length) :
    ∃ packets, ((units.map NalUnit.bytes).zipIdx i).mapM
        (fun (nal, idx) => self.frameNal nal (idx + 1 == total)) = some packets ∧
      Framed self.maxPayloadSize packets.flatten
        (units.flatMap fun u => startCode ++ u.bytes) true := by
  induction units generalizing i with
  | nil => exact absurd rfl hunits
  | cons u units ih =>
      rw [List.map_cons, List.zipIdx_cons, List.mapM_cons, List.flatMap_cons]
      cases units with
      | nil =>
          obtain ⟨ps, hps, hframed⟩ := framed_nal hmax u true
          have hlast : (i + 1 == total) = true := beq_iff_eq.mpr htotal.symm
          refine ⟨[ps], ?_, ?_⟩
          · dsimp only
            rw [hlast, hps]
            rfl
          · rw [List.flatten_singleton, List.flatMap_nil, List.append_nil]
            exact hframed
      | cons u' units =>
          obtain ⟨ps, hps, hframed⟩ := framed_nal hmax u false
          obtain ⟨rest, hrest, hframed'⟩ := ih (List.cons_ne_nil u' units)
            (show total = i + 1 + _ by rw [htotal, List.length_cons]; omega)
          have hmore : (i + 1 == total) = false := by
            rw [beq_eq_false_iff_ne, htotal, List.length_cons, List.length_cons]
            omega
          refine ⟨ps :: rest, ?_, hframed.append hframed'⟩
          dsimp only
          rw [hmore, hps, hrest]
          rfl

/-- An access unit comes back as it was sent, with start codes of three bytes. -/
theorem frame_annexB (hmax : 3 ≤ self.maxPayloadSize) {units : List (NalUnit × Bool)}
    (hunits : units ≠ []) {d : H264Depacketizer} (hd : d.Settled []) :
    ∃ packets, self.frame (annexB units) = some packets ∧
      (∀ p ∈ packets, p.payload.length ≤ self.maxPayloadSize) ∧
      packets.map (·.isFrameEnd) = List.replicate (packets.length - 1) false ++ [true] ∧
      (d.pushAll packets).1.Settled [] ∧
      (d.pushAll packets).2 = List.replicate (packets.length - 1) none ++
        [some (units.flatMap fun u => startCode ++ u.1.bytes)] := by
  have hne : units.map Prod.fst ≠ [] := mt List.map_eq_nil_iff.mp hunits
  obtain ⟨packets, hpackets, hframed⟩ := framed_units hmax hne (Nat.zero_add _).symm
  have hadds := hframed.adds d hd.inFragment
  refine ⟨packets.flatten, ?_, hframed.small, hframed.frameEnd, hadds.settled, ?_⟩
  · rw [List.map_map, List.length_map] at hpackets
    change (units.map fun u => u.1.bytes).zipIdx.mapM _ = some packets at hpackets
    rw [frame, splitNals_annexB, List.length_map]
    simp only [hpackets]
    rfl
  · rw [hadds.returned, hd.buffer, List.flatMap_map]
    rfl

/-- A unit of one packet after a long start code, and one of four fragments. -/
def twoUnits : List (NalUnit × Bool) :=
  [(⟨0x67, [0x42], by decide, by decide, by decide, by decide⟩, true),
    (⟨0x65, [0, 0, 3, 1, 0, 2, 9], by decide, by decide, by decide, by decide⟩, false)]

theorem frame_twoUnits :
    ∃ packets, (H264Framer.mk 4).frame (annexB twoUnits) = some packets ∧
      (∀ p ∈ packets, p.payload.length ≤ 4) ∧
      packets.map (·.isFrameEnd) = List.replicate (packets.length - 1) false ++ [true] ∧
      (H264Depacketizer.new.pushAll packets).1.Settled [] ∧
      (H264Depacketizer.new.pushAll packets).2 = List.replicate (packets.length - 1) none ++
        [some [0, 0, 1, 0x67, 0x42, 0, 0, 1, 0x65, 0, 0, 3, 1, 0, 2, 9]] :=
  frame_annexB (show 3 ≤ (H264Framer.mk 4).maxPayloadSize by decide) (List.cons_ne_nil _ _)
    ⟨rfl, rfl⟩

end H264Framer

end Wzp.Video
