import Wzp.Lib.Runs
import Wzp.Video.H264

/-!
# H.264 packets that are lost

Of the packets of several access units some arrive, in order. Each is known by its
access unit, its NAL unit and its place among the packets of that NAL unit.
-/
namespace Wzp.Video
open Bytes Runs

/-- A packet with the NAL unit it carries or is a piece of. -/
structure SentPacket where
  unit : ℕ
  nalIdx : ℕ
  nal : Buf
  piece : ℕ
  packet : FramedPacket

namespace H264Framer
variable (self : H264Framer)

def sentNal (unit nalIdx : ℕ) (nal : Buf) (isLastNal : Bool) : List SentPacket :=
  ((self.frameNal nal isLastNal).getD []).zipIdx.map fun (packet, piece) =>
    ⟨unit, nalIdx, nal, piece, packet⟩

/-- The packets of `frame`, if it returns. -/
def sentUnit (unit : ℕ) (accessUnit : Buf) : List SentPacket :=
  if (self.frame accessUnit).isSome then
    let nals := splitNals accessUnit
    nals.zipIdx.flatMap fun (nal, idx) => self.sentNal unit idx nal (idx + 1 == nals.length)
  else []

def sent (accessUnits : List Buf) : List SentPacket :=
  accessUnits.zipIdx.flatMap fun (accessUnit, unit) => self.sentUnit unit accessUnit

variable {self} {unit : ℕ} {accessUnit : Buf} {accessUnits : List Buf}

theorem map_packet_sentNal {nalIdx : ℕ} {nal : Buf} {isLastNal : Bool} {ps : List FramedPacket}
    (h : self.frameNal nal isLastNal = some ps) :
    (self.sentNal unit nalIdx nal isLastNal).map SentPacket.packet = ps := by
  rw [sentNal, h, List.map_map]
  exact List.zipIdx_map_fst 0 ps

/-- They are the packets of `frame`: what arrives in the results on losses is what the framer
made, with its place. -/
theorem map_packet_sentUnit {packets : List FramedPacket}
    (h : self.frame accessUnit = some packets) :
    (self.sentUnit unit accessUnit).map SentPacket.packet = packets := by
  rw [sentUnit, h, if_pos (show (some packets).isSome = true from rfl), List.map_flatMap]
  simp only [frame, Option.bind_eq_bind, Option.bind_eq_some_iff, Option.pure_def,
    Option.some.injEq] at h
  obtain ⟨parts, hparts, rfl⟩ := h
  generalize (splitNals accessUnit).zipIdx = nals at hparts ⊢
  induction nals generalizing parts with
  | nil =>
      obtain rfl := Option.some.inj hparts
      rfl
  | cons nal nals ih =>
      simp only [List.mapM_cons, Option.bind_eq_bind, Option.bind_eq_some_iff, Option.pure_def,
        Option.some.injEq] at hparts
      obtain ⟨ps, hps, rest, hrest, rfl⟩ := hparts
      rw [List.flatMap_cons, ih rest hrest, map_packet_sentNal hps, List.flatten_cons]

end H264Framer

/-- What a packet can be: a whole NAL unit, or a piece of one. -/
inductive PacketForm (maxPayloadSize : ℕ) (p : SentPacket) : Prop where
  | single (isFrameEnd : Bool) (fits : p.nal.length ≤ maxPayloadSize) (first : p.piece = 0)
      (packet : p.packet = ⟨p.nal, isFrameEnd⟩)
  | fragment (header : UInt8) (payload data : Buf) (isLastNal : Bool)
      (long : maxPayloadSize < p.nal.length) (room : 2 < maxPayloadSize)
      (nal : p.nal = header :: payload)
      (piece : (chunks (maxPayloadSize - 2) payload)[p.piece]? = some data)
      (packet : p.packet = H264Framer.fragment header
        (chunks (maxPayloadSize - 2) payload).length isLastNal p.piece data)

/-- The NAL units of the access unit. -/
def nalsOf (accessUnits : List Buf) (unit : ℕ) : List Buf :=
  (accessUnits[unit]?.map splitNals).getD []

namespace H264Framer
variable {self : H264Framer} {accessUnits : List Buf} {p : SentPacket}

theorem packetForm_of_mem_sentNal {unit nalIdx : ℕ} {nal : Buf} {isLastNal : Bool}
    (h : p ∈ self.sentNal unit nalIdx nal isLastNal) :
    (p.unit = unit ∧ p.nalIdx = nalIdx ∧ p.nal = nal) ∧ PacketForm self.maxPayloadSize p := by
  obtain ⟨⟨packet, piece⟩, hmem, rfl⟩ := List.mem_map.mp h
  refine ⟨⟨rfl, rfl, rfl⟩, ?_⟩
  have hsingle : nal.length ≤ self.maxPayloadSize → (packet, piece) = (⟨nal, isLastNal⟩, 0) →
      PacketForm self.maxPayloadSize ⟨unit, nalIdx, nal, piece, packet⟩ := by
    rintro hfits heq
    obtain ⟨rfl, rfl⟩ := Prod.mk.inj heq
    exact .single isLastNal hfits rfl rfl
  cases nal with
  | nil => exact hsingle (Nat.zero_le _) (List.mem_singleton.mp hmem)
  | cons header payload =>
      by_cases hfits : (header :: payload).length ≤ self.maxPayloadSize
      · rw [frameNal, if_pos hfits] at hmem
        exact hsingle hfits (List.mem_singleton.mp hmem)
      · by_cases hroom : self.maxPayloadSize ≤ 2
        · rw [frameNal, if_neg hfits, if_pos hroom] at hmem
          exact absurd hmem List.not_mem_nil
        · rw [frameNal, if_neg hfits, if_neg hroom, Option.getD_some, List.mk_mem_zipIdx_iff_getElem?,
            fragments, List.getElem?_map, List.getElem?_zipIdx] at hmem
          obtain ⟨⟨data, i⟩, hmap, rfl⟩ := Option.map_eq_some_iff.mp hmem
          obtain ⟨data', hdata, heq⟩ := Option.map_eq_some_iff.mp hmap
          obtain ⟨rfl, rfl⟩ := Prod.mk.inj heq
          rw [Nat.zero_add]
          exact .fragment header payload data' isLastNal (Nat.lt_of_not_le hfits)
            (Nat.lt_of_not_le hroom) rfl hdata rfl

/-- A packet that is sent is of a NAL unit of its access unit. -/
theorem packetForm_of_mem_sent (h : p ∈ self.sent accessUnits) :
    (nalsOf accessUnits p.unit)[p.nalIdx]? = some p.nal ∧ PacketForm self.maxPayloadSize p := by
  obtain ⟨⟨accessUnit, unit⟩, hunit, hmem⟩ := List.mem_flatMap.mp h
  rw [List.mk_mem_zipIdx_iff_getElem?] at hunit
  dsimp only [sentUnit] at hmem
  split at hmem
  · obtain ⟨⟨nal, nalIdx⟩, hnal, hmem⟩ := List.mem_flatMap.mp hmem
    rw [List.mk_mem_zipIdx_iff_getElem?] at hnal
    obtain ⟨⟨rfl, rfl, rfl⟩, hform⟩ := packetForm_of_mem_sentNal hmem
    refine ⟨?_, hform⟩
    rw [nalsOf, hunit]
    exact hnal
  · exact absurd hmem List.not_mem_nil

end H264Framer

/-! ## What arrives -/

/-- A depacketizer, the packet before, the access unit of what is in the buffer, and what
was returned. -/
structure WatchedDepacketizer where
  depacketizer : H264Depacketizer
  previous : Option SentPacket
  unit : ℕ
  returned : List Buf

namespace WatchedDepacketizer

def start : WatchedDepacketizer := ⟨.new, none, 0, []⟩

def step (s : WatchedDepacketizer) (p : SentPacket) : WatchedDepacketizer where
  depacketizer := (s.depacketizer.push p.packet.payload p.packet.isFrameEnd).1
  previous := some p
  unit := if p.piece = 0 then p.unit else s.unit
  returned := (s.depacketizer.push p.packet.payload p.packet.isFrameEnd).2.toList ++ s.returned

/-- Whole NAL units of one access unit, each after a start code. -/
def OfOneUnit (accessUnits : List Buf) (out : Buf) : Prop :=
  ∃ accessUnit ∈ accessUnits, ∃ nals : List Buf,
    (∀ nal ∈ nals, nal ∈ splitNals accessUnit) ∧ out = nals.flatMap (startCode ++ ·)

def Whole (accessUnits : List Buf) (s : WatchedDepacketizer) : Prop :=
  ∀ out ∈ s.returned, OfOneUnit accessUnits out

/-- The header can be told from one of a fragment, and is not changed by one. -/
def Legible (maxPayloadSize : ℕ) (nal : Buf) : Prop :=
  if nal.length ≤ maxPayloadSize then nal.headD 0 &&& 0x1F ≠ 28 else nal.headD 0 &&& 0x80 = 0

/-- The packet is the next one of the same NAL unit. -/
def Continues (p q : SentPacket) : Prop :=
  p.unit = q.unit ∧ p.nalIdx = q.nalIdx ∧ p.piece = q.piece + 1

/-- A NAL unit begins when none is incomplete and there is nothing from another access unit;
while one is incomplete its next fragment comes. -/
def InOrder (maxPayloadSize : ℕ) (s : WatchedDepacketizer) (p : SentPacket) : Prop :=
  Legible maxPayloadSize p.nal ∧
    (p.piece = 0 → s.depacketizer.inFragment = false ∧
      (s.depacketizer.buffer = [] ∨ s.unit = p.unit)) ∧
    (p.piece ≠ 0 → s.depacketizer.inFragment = true → ∃ q ∈ s.previous, Continues p q)

/-! ## What is in the buffer -/

def Complete (accessUnits : List Buf) (unit : ℕ) (b : Buf) : Prop :=
  ∃ nals : List Buf, (∀ nal ∈ nals, nal ∈ nalsOf accessUnits unit) ∧
    b = nals.flatMap (startCode ++ ·)

/-- The fragments up to `q`, after whole NAL units. -/
def Begun (maxPayloadSize : ℕ) (accessUnits : List Buf) (unit : ℕ) (q : SentPacket) (b : Buf) :
    Prop :=
  ∃ header payload whole, q.unit = unit ∧
    (nalsOf accessUnits unit)[q.nalIdx]? = some (header :: payload) ∧
    Complete accessUnits unit whole ∧
    q.piece + 1 < (chunks (maxPayloadSize - 2) payload).length ∧
    b = whole ++ startCode ++
      header :: ((chunks (maxPayloadSize - 2) payload).take (q.piece + 1)).flatten

structure Holds (maxPayloadSize : ℕ) (accessUnits : List Buf) (s : WatchedDepacketizer) : Prop where
  between : s.depacketizer.inFragment = false →
    Complete accessUnits s.unit s.depacketizer.buffer
  within : s.depacketizer.inFragment = true →
    ∃ q ∈ s.previous, Begun maxPayloadSize accessUnits s.unit q s.depacketizer.buffer
  whole : s.Whole accessUnits

variable {accessUnits : List Buf} {unit maxPayloadSize : ℕ} {b nal : Buf}

theorem complete_nil (accessUnits : List Buf) (unit : ℕ) : Complete accessUnits unit [] :=
  ⟨[], fun _ h => absurd h List.not_mem_nil, rfl⟩

theorem Complete.add (h : Complete accessUnits unit b) (hnal : nal ∈ nalsOf accessUnits unit) :
    Complete accessUnits unit (b ++ startCode ++ nal) := by
  obtain ⟨nals, hnals, rfl⟩ := h
  refine ⟨nals ++ [nal], ?_, ?_⟩
  · intro n hn
    rw [List.mem_append, List.mem_singleton] at hn
    obtain hn | rfl := hn
    · exact hnals n hn
    · exact hnal
  · rw [List.flatMap_append, List.flatMap_singleton, List.append_assoc]

theorem Complete.ofOneUnit (h : Complete accessUnits unit b) (hb : b ≠ []) :
    OfOneUnit accessUnits b := by
  obtain ⟨nals, hnals, rfl⟩ := h
  cases hunit : accessUnits[unit]? with
  | some accessUnit =>
      have heq : nalsOf accessUnits unit = splitNals accessUnit := by rw [nalsOf, hunit]; rfl
      rw [heq] at hnals
      exact ⟨accessUnit, List.mem_of_getElem? hunit, nals, hnals, rfl⟩
  | none =>
      have heq : nalsOf accessUnits unit = [] := by rw [nalsOf, hunit]; rfl
      rw [heq] at hnals
      rw [List.eq_nil_iff_forall_not_mem.mpr fun n hn => List.not_mem_nil (hnals n hn)] at hb
      exact absurd rfl hb

/-- The buffer is returned only between two NAL units. -/
theorem holds_maybeEmit {d : H264Depacketizer} {p : SentPacket} {returned : List Buf}
    (hbetween : d.inFragment = false → Complete accessUnits unit d.buffer)
    (hwithin : d.inFragment = true → Begun maxPayloadSize accessUnits unit p d.buffer)
    (hwhole : ∀ out ∈ returned, OfOneUnit accessUnits out) (isFrameEnd : Bool) :
    Holds maxPayloadSize accessUnits ⟨(d.maybeEmit isFrameEnd).1, some p, unit,
      (d.maybeEmit isFrameEnd).2.toList ++ returned⟩ := by
  have hkept : Holds maxPayloadSize accessUnits ⟨d, some p, unit, returned⟩ :=
    ⟨hbetween, fun h => ⟨p, rfl, hwithin h⟩, hwhole⟩
  unfold H264Depacketizer.maybeEmit
  split
  · rename_i hend
    rw [Bool.and_eq_true, Bool.not_eq_true'] at hend
    split
    · exact hkept
    · rename_i hne
      have hbuffer : d.buffer ≠ [] := fun h => hne (List.isEmpty_iff.mpr h)
      refine ⟨fun _ => complete_nil _ _, fun h => absurd (hend.2.symm.trans h) (by decide), ?_⟩
      intro out hout
      obtain rfl | hout := List.mem_cons.mp hout
      · exact (hbetween hend.2).ofOneUnit hbuffer
      · exact hwhole out hout
  · exact hkept

theorem flatten_take_succ {pieces : List Buf} {i : ℕ} {data : Buf} (h : pieces[i]? = some data) :
    (pieces.take (i + 1)).flatten = (pieces.take i).flatten ++ data := by
  rw [List.take_add_one, h, List.flatten_append, Option.toList_some, List.flatten_singleton]

/-- With the last piece the NAL unit is whole, before that it is begun. -/
theorem holds_piece {p : SentPacket} {header : UInt8} {payload whole : Buf}
    {returned : List Buf} (hnal : (nalsOf accessUnits p.unit)[p.nalIdx]? = some (header :: payload))
    (hcomplete : Complete accessUnits p.unit whole) (room : 2 < maxPayloadSize)
    (hlt : p.piece < (chunks (maxPayloadSize - 2) payload).length)
    (hwhole : ∀ out ∈ returned, OfOneUnit accessUnits out) (fragHeader : UInt8) (isFrameEnd : Bool) :
    let d : H264Depacketizer :=
      ⟨whole ++ startCode ++
        header :: ((chunks (maxPayloadSize - 2) payload).take (p.piece + 1)).flatten,
        !(p.piece + 1 == (chunks (maxPayloadSize - 2) payload).length), fragHeader⟩
    Holds maxPayloadSize accessUnits ⟨(d.maybeEmit isFrameEnd).1, some p, p.unit,
      (d.maybeEmit isFrameEnd).2.toList ++ returned⟩ := by
  refine holds_maybeEmit (fun hend => ?_) (fun hmore => ?_) hwhole isFrameEnd
  · rw [Bool.not_eq_false', beq_iff_eq] at hend
    dsimp only
    rw [hend, List.take_length, flatten_chunks (by omega)]
    exact hcomplete.add (List.mem_of_getElem? hnal)
  · rw [Bool.not_eq_true', beq_eq_false_iff_ne] at hmore
    exact ⟨header, payload, whole, rfl, hnal, hcomplete, by omega, rfl⟩

theorem holds_step {self : H264Framer} {s : WatchedDepacketizer} {p : SentPacket}
    (hsent : p ∈ self.sent accessUnits) (h : Holds self.maxPayloadSize accessUnits s)
    (hok : InOrder self.maxPayloadSize s p) :
    Holds self.maxPayloadSize accessUnits (s.step p) := by
  obtain ⟨hnal, hform⟩ := H264Framer.packetForm_of_mem_sent hsent
  obtain ⟨hlegible, hbegins, hcontinues⟩ := hok
  have hcomplete : p.piece = 0 → Complete accessUnits p.unit s.depacketizer.buffer := by
    intro hfirst
    obtain ⟨hin, hempty | hunit⟩ := hbegins hfirst
    · rw [hempty]
      exact complete_nil _ _
    · exact hunit ▸ h.between hin
  cases hform with
  | single isFrameEnd fits first packet =>
      rw [step, packet, if_pos first]
      rw [Legible, if_pos fits] at hlegible
      cases hbytes : p.nal with
      | nil =>
          refine holds_maybeEmit (fun _ => hcomplete first) (fun hin => ?_) h.whole isFrameEnd
          exact absurd ((hbegins first).1.symm.trans hin) (by decide)
      | cons header data =>
          rw [hbytes] at hlegible hnal
          rw [List.headD_cons] at hlegible
          rw [H264Depacketizer.push_single _ hlegible]
          exact holds_maybeEmit (fun _ => (hcomplete first).add (List.mem_of_getElem? hnal))
            (fun hin => absurd hin Bool.false_ne_true) h.whole isFrameEnd
  | fragment header payload data isLastNal long room nal piece packet =>
      rw [step, packet]
      rw [nal] at hnal
      obtain ⟨hlt, -⟩ := List.getElem?_eq_some_iff.mp piece
      have hflatten := flatten_take_succ piece
      by_cases first : p.piece = 0
      · rw [if_pos first]
        rw [Legible, if_neg (Nat.not_le_of_lt long), nal, List.headD_cons] at hlegible
        have hpiece := holds_piece hnal (hcomplete first) room hlt h.whole header
        rw [hflatten] at hpiece
        rw [first] at hpiece ⊢
        rw [H264Depacketizer.push_first _ hlegible]
        exact hpiece _
      · rw [if_neg first]
        cases hin : s.depacketizer.inFragment with
        | false =>
            rw [H264Depacketizer.push_late first hin]
            exact holds_maybeEmit h.between
              (fun htrue => absurd (hin.symm.trans htrue) (by decide)) h.whole _
        | true =>
            obtain ⟨q, hq, hunit, hidx, hpiece⟩ := hcontinues first hin
            obtain ⟨q', hq', header', payload', whole, hunit', hnal', hcomplete', -, hbuffer⟩ :=
              h.within hin
            obtain rfl := Option.some.inj (hq.symm.trans hq')
            have hsame : s.unit = p.unit := hunit'.symm.trans hunit.symm
            rw [hsame, ← hidx, hnal] at hnal'
            obtain ⟨rfl, rfl⟩ := List.cons.inj (Option.some.inj hnal')
            have hnext : s.depacketizer.buffer ++ data = whole ++ startCode ++ header ::
                ((chunks (self.maxPayloadSize - 2) payload).take (p.piece + 1)).flatten := by
              rw [hbuffer, hflatten, hpiece, List.append_assoc _ _ data, List.cons_append]
            rw [H264Depacketizer.push_next first hin, hsame, hnext]
            exact holds_piece hnal (hsame ▸ hcomplete') room hlt h.whole _ _

/-- In a run in which a NAL unit is never begun over an incomplete one or over what is left of
another access unit, and never continued with a fragment missing, what is returned are
whole NAL units of one access unit. -/
theorem whole_of_inOrder {self : H264Framer} {es : List SentPacket}
    (hsent : es.Sublist (self.sent accessUnits))
    (h : EachStep step (InOrder self.maxPayloadSize) start es) :
    Throughout step (Whole accessUnits) start es := by
  have hstart : Holds self.maxPayloadSize accessUnits start :=
    ⟨fun _ => complete_nil _ _, fun hin => absurd hin Bool.false_ne_true,
      fun _ hout => absurd hout List.not_mem_nil⟩
  have hok := eachStep_and.mpr ⟨h, eachStep_of_forall fun p hp _ => hsent.subset hp⟩
  have hholds := throughout_of_eachStep (fun s p hs hp => holds_step hp.2 hs hp.1) hstart hok
  exact hholds.mono fun _ => Holds.whole

instance (maxPayloadSize : ℕ) (s : WatchedDepacketizer) (p : SentPacket) :
    Decidable (InOrder maxPayloadSize s p) := by
  unfold InOrder Legible Continues
  infer_instance

/-! ## Runs with losses -/

/-- A NAL unit of three fragments, two of one packet each, and one more. -/
def threeUnits : List (List (NalUnit × Bool)) :=
  [[(⟨0x41, [1, 2, 3], by decide, by decide, by decide, by decide⟩, false)],
    [(⟨0x27, [5], by decide, by decide, by decide, by decide⟩, false),
      (⟨0x28, [6], by decide, by decide, by decide, by decide⟩, true)],
    [(⟨0x41, [9], by decide, by decide, by decide, by decide⟩, false)]]

theorem sent_threeUnits : (H264Framer.mk 3).sent (threeUnits.map annexB) =
    (H264Framer.mk 3).sentNal 0 0 [0x41, 1, 2, 3] true ++
      ((H264Framer.mk 3).sentNal 1 0 [0x27, 5] false ++
        (H264Framer.mk 3).sentNal 1 1 [0x28, 6] true) ++
      (H264Framer.mk 3).sentNal 2 0 [0x41, 9] true := by
  simp only [H264Framer.sent, H264Framer.sentUnit, H264Framer.frame, threeUnits, List.map_cons,
    List.map_nil, List.zipIdx_cons, List.zipIdx_nil, List.flatMap_cons, List.flatMap_nil,
    splitNals_annexB]
  rfl

/-- Without its first fragment the first access unit is left out. -/
theorem whole_firstLost :
    Throughout step (Whole (threeUnits.map annexB)) start
      (((H264Framer.mk 3).sent (threeUnits.map annexB)).drop 1) :=
  whole_of_inOrder (List.drop_sublist 1 _) (by rw [sent_threeUnits]; decide)

/-- Every byte is of a start code or of a NAL unit all of whose bytes are there. -/
theorem OfOneUnit.exists_nal {units : List (List (NalUnit × Bool))} {out : Buf}
    (h : OfOneUnit (units.map annexB) out) : ∃ u ∈ units, ∀ x ∈ out,
      ∃ nal ∈ u.map fun v => v.1.bytes, x ∈ startCode ++ nal ∧ ∀ y ∈ nal, y ∈ out := by
  obtain ⟨_, hmem, nals, hnals, rfl⟩ := h
  obtain ⟨u, hu, rfl⟩ := List.mem_map.mp hmem
  rw [splitNals_annexB] at hnals
  refine ⟨u, hu, fun x hx => ?_⟩
  obtain ⟨nal, hnal, hxnal⟩ := List.mem_flatMap.mp hx
  refine ⟨nal, hnals nal hnal, hxnal, fun y hy => ?_⟩
  exact List.mem_flatMap.mpr ⟨nal, hnal, List.mem_append_right _ hy⟩

/-- Without the second of three fragments a NAL unit is returned without its middle, and
without the end of an access unit its first NAL unit is returned with the next one. -/
theorem cut_and_merged :
    (∃ es, es.Sublist ((H264Framer.mk 3).sent (threeUnits.map annexB)) ∧
      [0, 0, 1, 0x41, 1, 3] ∈ (run step start es).returned ∧
      ¬ OfOneUnit (threeUnits.map annexB) [0, 0, 1, 0x41, 1, 3]) ∧
    (∃ es, es.Sublist ((H264Framer.mk 3).sent (threeUnits.map annexB)) ∧
      [0, 0, 1, 0x27, 5, 0, 0, 1, 0x41, 9] ∈ (run step start es).returned ∧
      ¬ OfOneUnit (threeUnits.map annexB) [0, 0, 1, 0x27, 5, 0, 0, 1, 0x41, 9]) := by
  rw [sent_threeUnits]
  refine ⟨⟨_, List.eraseIdx_sublist _ 1, by decide, fun h => ?_⟩,
    ⟨_, List.eraseIdx_sublist _ 4, by decide, fun h => ?_⟩⟩
  · exact absurd h.exists_nal (by decide +kernel)
  · exact absurd h.exists_nal (by decide +kernel)

end WatchedDepacketizer

end Wzp.Video
