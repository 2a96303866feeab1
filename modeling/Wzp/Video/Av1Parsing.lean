import Wzp.Video.Av1Obu

/-!
# AV1 parsing of any bytes

The parser is given whatever comes from the network. A size may have more bits than the
number it is read into, and with it an OBU may end beyond all positions.
-/
namespace Wzp.Video
open Bytes

/-! ## Keyframes -/

namespace ObuType

def frameHeader : UInt8 := 3

def frame : UInt8 := 6

end ObuType

/-- No bit is there after the end. An index out of range ends in a panic. -/
def readBit (data : Buf) (bitOffset : ℕ) : Option Bool :=
  let byteIdx := bitOffset / 8
  let bitIdx := 7 - bitOffset % 8
  if data.length ≤ byteIdx then some false
  else data[byteIdx]?.map fun byte => byte >>> UInt8.ofNat bitIdx &&& 1 != 0

def readBits (data : Buf) (bitOffset n : ℕ) : Option UInt8 :=
  (List.range n).foldlM (fun value i => do
    let bit ← readBit data (bitOffset + i)
    return value <<< 1 ||| bit.toUInt8) 0

/-- Whether the first frame that is not an earlier one shown again is a keyframe. -/
def firstFrameIsKey : List (ObuHeader × Buf) → Option Bool
  | [] => some false
  | (header, payload) :: rest =>
      let isFrameHeader := header.obuType = ObuType.frameHeader ∨ header.obuType = ObuType.frame
      if ¬ isFrameHeader ∨ payload.isEmpty then firstFrameIsKey rest
      else do
        let showExisting ← readBit payload 0
        if showExisting then firstFrameIsKey rest
        else return (← readBits payload 1 2) = 0

def isKeyframeObu (data : Buf) : Option Bool := splitObus data >>= firstFrameIsKey

theorem readBit_isSome (data : Buf) (bitOffset : ℕ) : ∃ bit, readBit data bitOffset = some bit := by
  unfold readBit
  dsimp only
  split
  · exact ⟨false, rfl⟩
  · next hin =>
      rw [List.getElem?_eq_getElem (Nat.lt_of_not_le hin)]
      exact ⟨_, rfl⟩

theorem readBits_isSome (data : Buf) (bitOffset n : ℕ) : ∃ v, readBits data bitOffset n = some v := by
  unfold readBits
  generalize (0 : UInt8) = value
  induction List.range n generalizing value with
  | nil => exact ⟨value, rfl⟩
  | cons i rest ih =>
      obtain ⟨bit, hbit⟩ := readBit_isSome data (bitOffset + i)
      obtain ⟨v, hv⟩ := ih (value <<< 1 ||| bit.toUInt8)
      refine ⟨v, ?_⟩
      rw [List.foldlM_cons, hbit]
      exact hv

/-- No bit is read out of range. -/
theorem firstFrameIsKey_isSome (obus : List (ObuHeader × Buf)) :
    ∃ b, firstFrameIsKey obus = some b := by
  induction obus with
  | nil => exact ⟨false, rfl⟩
  | cons obu rest ih =>
      obtain ⟨header, payload⟩ := obu
      rw [firstFrameIsKey]
      split
      · exact ih
      · obtain ⟨showExisting, hshow⟩ := readBit_isSome payload 0
        obtain ⟨frameType, htype⟩ := readBits_isSome payload 1 2
        rw [hshow, htype]
        cases showExisting with
        | true => exact ih
        | false => exact ⟨_, rfl⟩

/-! ## What is asked of the parser -/

/-- The pieces stand in the bytes one after the other. -/
inductive InOrder : List Buf → Buf → Prop where
  | nil {data : Buf} : InOrder [] data
  | cons {before piece rest : Buf} {pieces : List Buf} (later : InOrder pieces rest) :
      InOrder (piece :: pieces) (before ++ (piece ++ rest))

/-- The bytes are parsed without a panic into pieces of them, and no size that is read
from them loses bits. -/
structure SafelyParsed (data : Buf) : Prop where
  split : ∃ obus, splitObus data = some obus ∧ InOrder (obus.map Prod.snd) data
  keyframe : ∃ b, isKeyframeObu data = some b
  exact : ∀ offset v consumed, readLeb128 (data.drop offset) = some (v, consumed) →
    Leb128.Encodes v.toNat ((data.drop offset).take consumed)

/-- No nine bytes that announce more are followed by a last one with more than one bit. -/
def SizesFit (data : Buf) : Prop :=
  ∀ before hi b rest, data = before ++ (hi ++ b :: rest) → hi.length = 9 →
    (∀ x ∈ hi, 128 ≤ x.toNat) → b.toNat < 128 → b.toNat < 2

/-- The bytes are complete OBUs. -/
inductive CompleteObus : Buf → Prop where
  | nil : CompleteObus []
  | cons {header : ObuHeader} {start payload rest : Buf}
      (first : StartsObu header payload.length start) (more : CompleteObus rest) :
      CompleteObus (start ++ (payload ++ rest))

/-- No OBU that complete ones lead to would end at a position of more than 64 bits. -/
def EndsFit (data : Buf) : Prop :=
  ∀ before start rest header n, data = before ++ (start ++ rest) → CompleteObus before →
    StartsObu header n start → before.length + start.length + n < 2 ^ 64

/-! ## Sizes -/

variable {data start rest : Buf} {header : ObuHeader} {v : UInt64} {n consumed : ℕ}

theorem readLeb128Loop_sound {value : UInt64} {k : ℕ} {start : ℕ} (hk : k ≤ 9)
    (h : readLeb128Loop data value (7 * k) start = some (v, consumed)) :
    ∃ n bytes rest, data = bytes ++ rest ∧ Leb128.Encodes n bytes ∧
      consumed = start + bytes.length ∧ k + bytes.length ≤ 10 := by
  induction data generalizing value k start with
  | nil => exact absurd h.symm (Option.some_ne_none _)
  | cons byte data ih =>
      rw [readLeb128Loop] at h
      split at h
      · next hlast =>
          obtain ⟨-, rfl⟩ := Prod.mk.inj (Option.some.inj h)
          exact ⟨byte.toNat, [byte], data, rfl, .last ((and_0x80_eq_zero byte).mp hlast), rfl,
            Nat.succ_le_succ hk⟩
      · next hmore =>
          split at h
          · exact absurd h.symm (Option.some_ne_none _)
          · obtain ⟨n, bytes, rest, rfl, hencodes, rfl, hten⟩ :=
              ih (k := k + 1) (by omega) h
            have hge : 128 ≤ byte.toNat :=
              Nat.le_of_not_lt (mt (and_0x80_eq_zero byte).mpr hmore)
            refine ⟨_, byte :: bytes, rest, rfl, .more hge hencodes, ?_, ?_⟩
            · rw [List.length_cons]
              omega
            · rw [List.length_cons]
              omega

/-- What is read is an encoding of at most ten bytes, with the bits of it that fit. -/
theorem readLeb128_sound (h : readLeb128 data = some (v, consumed)) :
    ∃ n bytes rest, data = bytes ++ rest ∧ Leb128.Encodes n bytes ∧ consumed = bytes.length ∧
      bytes.length ≤ 10 ∧ v = UInt64.ofNat n := by
  obtain ⟨n, bytes, rest, rfl, hencodes, hconsumed, hten⟩ :=
    readLeb128Loop_sound (k := 0) (Nat.zero_le 9) h
  rw [Nat.zero_add] at hconsumed hten
  have hread := h.symm.trans (readLeb128_append hencodes hten rest)
  exact ⟨n, bytes, rest, rfl, hencodes, hconsumed, hten, (Prod.mk.inj (Option.some.inj hread)).1⟩

/-- An encoding of ten bytes that is too large has more than one bit in the last. -/
theorem SizesFit.lt {before bytes : Buf} (h : SizesFit (before ++ (bytes ++ rest)))
    (hencodes : Leb128.Encodes n bytes) (hten : bytes.length ≤ 10) : n < 2 ^ 64 := by
  obtain ⟨hi, b, low, rfl, hhi, hb, hlow, rfl⟩ := hencodes.split
  rw [List.length_append, List.length_singleton] at hten
  rcases Nat.lt_or_ge hi.length 9 with hshort | hlong
  · have hlt := hencodes.lt
    rw [List.length_append, List.length_singleton] at hlt
    exact hlt.trans_le (show 128 ^ (hi.length + 1) ≤ 2 ^ 64 from
      (Nat.pow_le_pow_right (by decide) hshort).trans (by decide))
  · have hnine : hi.length = 9 := by omega
    have htwo := h before hi b rest (by rw [List.append_assoc, List.singleton_append]) hnine hhi hb
    rw [hnine] at hlow ⊢
    omega

theorem SizesFit.readLeb128 {before : Buf} (h : SizesFit (before ++ data))
    (hread : readLeb128 data = some (v, consumed)) :
    ∃ bytes rest, data = bytes ++ rest ∧ Leb128.Encodes v.toNat bytes ∧ consumed = bytes.length ∧
      bytes.length ≤ 10 := by
  obtain ⟨n, bytes, rest, rfl, hencodes, rfl, hten, rfl⟩ := readLeb128_sound hread
  have hvalue : (UInt64.ofNat n).toNat = n := UInt64.toNat_ofNat_of_lt' (h.lt hencodes hten)
  exact ⟨bytes, rest, rfl, hvalue.symm ▸ hencodes, rfl, hten⟩

/-- Sizes that lose no bits are exactly those that fit. -/
theorem exact_iff_sizesFit (data : Buf) :
    (∀ offset v consumed, readLeb128 (data.drop offset) = some (v, consumed) →
      Leb128.Encodes v.toNat ((data.drop offset).take consumed)) ↔ SizesFit data := by
  constructor
  · rintro h before hi b rest rfl hnine hhi hb
    obtain ⟨n, hn⟩ := Leb128.exists_encodes hhi hb
    have hlength : (hi ++ [b]).length = 10 := by
      rw [List.length_append, hnine]
      rfl
    have hv := readLeb128_append hn hlength.le rest
    have hdata : before ++ (hi ++ b :: rest) = before ++ (hi ++ [b] ++ rest) := by
      rw [List.append_assoc, List.singleton_append]
    have hexact := h before.length (UInt64.ofNat n) (hi ++ [b]).length
    rw [hdata, List.drop_left, List.take_left] at hexact
    obtain ⟨hi', b', low, heq, -, -, -, hvalue⟩ := (hexact hv).split
    obtain ⟨rfl, hlast⟩ := List.append_inj' heq rfl
    obtain rfl := List.singleton_inj.mp hlast
    have hlt := (UInt64.ofNat n).toNat_lt
    rw [hnine] at hvalue
    omega
  · intro h offset v consumed hread
    have hsplit : data.take offset ++ data.drop offset = data := List.take_append_drop offset data
    rw [← hsplit] at h
    obtain ⟨bytes, rest, hdata, hencodes, rfl, -⟩ := h.readLeb128 hread
    rw [hdata, List.take_left]
    exact hencodes

/-! ## Ends -/

theorem readSizeField_sound {before : Buf} {header' : ObuHeader} {size : UInt64}
    (h : SizesFit (before ++ data)) (hread : readSizeField header' data = some (header, size, rest)) :
    header' = header ∧ header.hasSizeField = true ∧ ∃ bytes, data = bytes ++ rest ∧
      Leb128.Encodes size.toNat bytes ∧ bytes.length ≤ 10 := by
  unfold readSizeField at hread
  split at hread
  · next hheader =>
      obtain ⟨⟨v, consumed⟩, hsize, heq⟩ := Option.map_eq_some_iff.mp hread
      obtain ⟨rfl, hrest⟩ := Prod.mk.inj heq
      obtain ⟨rfl, rfl⟩ := Prod.mk.inj hrest
      obtain ⟨bytes, rest, rfl, hencodes, rfl, hten⟩ := h.readLeb128 hsize
      exact ⟨rfl, hheader, bytes, by rw [List.drop_left], hencodes, hten⟩
  · exact absurd hread.symm (Option.some_ne_none _)

theorem readObuStart_sound {before : Buf} {size : UInt64} (h : SizesFit (before ++ data))
    (hread : readObuStart data = some (header, size, rest)) :
    ∃ start, data = start ++ rest ∧ StartsObu header size.toNat start := by
  cases data with
  | nil => exact absurd hread.symm (Option.some_ne_none _)
  | cons byte data =>
      rw [readObuStart.eq_def] at hread
      dsimp only at hread
      have hnext : SizesFit (before ++ [byte] ++ data) := by
        rw [List.append_assoc]
        exact h
      split at hread
      · next hflag =>
          cases data with
          | nil => exact absurd hread.symm (Option.some_ne_none _)
          | cons extension data =>
              have hafter : SizesFit (before ++ [byte] ++ [extension] ++ data) := by
                rw [List.append_assoc _ [extension]]
                exact hnext
              obtain ⟨rfl, hheader, bytes, rfl, hencodes, hten⟩ := readSizeField_sound hafter hread
              exact ⟨byte :: ([extension] ++ bytes), rfl, byte, [extension], bytes, rfl, rfl,
                hheader, (if_pos hflag).symm, hencodes, hten⟩
      · next hflag =>
          obtain ⟨rfl, hheader, bytes, rfl, hencodes, hten⟩ := readSizeField_sound hnext hread
          exact ⟨byte :: ([] ++ bytes), rfl, byte, [], bytes, rfl, rfl, hheader,
            (if_neg hflag).symm, hencodes, hten⟩

/-- An overflow is met in an OBU after complete ones. -/
theorem exists_far_of_none (before : Buf) {total : ℕ} (h : SizesFit (before ++ data))
    (hnone : splitObusFrom total data = none) :
    ∃ pre start rest header n, data = pre ++ (start ++ rest) ∧ CompleteObus pre ∧
      StartsObu header n start ∧ 2 ^ 64 ≤ total - rest.length + n := by
  fun_induction splitObusFrom total data generalizing before with
  | case1 data hstart => exact absurd hnone (Option.some_ne_none [])
  | case2 data header size rest hstart _ hfar =>
      obtain ⟨start, rfl, hstarts⟩ := readObuStart_sound h hstart
      exact ⟨[], start, rest, header, size.toNat, rfl, .nil, hstarts, hfar⟩
  | case3 data header size rest hstart _ hnear hshort => exact absurd hnone (Option.some_ne_none [])
  | case4 data header size rest hstart _ hnear hlong ih =>
      obtain ⟨start, rfl, hstarts⟩ := readObuStart_sound h hstart
      have hpayload : (rest.take size.toNat).length = size.toNat := List.length_take_of_le (by omega)
      have hsplit : before ++ (start ++ rest) =
          before ++ start ++ rest.take size.toNat ++ rest.drop size.toNat := by
        rw [List.append_assoc, List.append_assoc, List.take_append_drop]
      rw [hsplit] at h
      obtain ⟨pre, start', rest', header', n, hdata, hpre, hstarts', hfar⟩ :=
        ih _ h (Option.map_eq_none_iff.mp hnone)
      refine ⟨start ++ (rest.take size.toNat ++ pre), start', rest', header', n, ?_,
        .cons (hpayload.symm ▸ hstarts) hpre, hstarts', hfar⟩
      rw [List.append_assoc, List.append_assoc, ← hdata, List.take_append_drop]

theorem SizesFit.start_lt {before : Buf} (h : SizesFit (before ++ (start ++ rest)))
    (hstarts : StartsObu header n start) : n < 2 ^ 64 := by
  obtain ⟨byte, extension, size, rfl, -, -, -, hencodes, hten⟩ := hstarts
  have hdata : before ++ (byte :: (extension ++ size) ++ rest) =
      before ++ (byte :: extension) ++ (size ++ rest) := by
    rw [List.append_assoc, List.cons_append, List.cons_append, List.append_assoc]
  rw [hdata] at h
  exact h.lt hencodes hten

theorem splitObusFrom_eq_none (before : Buf) {pre : Buf} {total : ℕ}
    (h : SizesFit (before ++ (pre ++ (start ++ rest)))) (hpre : CompleteObus pre)
    (hstarts : StartsObu header n start) (hfar : 2 ^ 64 ≤ total - rest.length + n) :
    splitObusFrom total (pre ++ (start ++ rest)) = none := by
  induction hpre generalizing before with
  | nil =>
      rw [List.nil_append] at h ⊢
      have hsize := UInt64.toNat_ofNat_of_lt' (h.start_lt hstarts)
      have hread := readObuStart_append hstarts rest
      rw [splitObusFrom_of_some hread, hsize, if_pos hfar]
  | @cons header' start' payload more first hmore ih =>
      have hassoc : start' ++ (payload ++ more) ++ (start ++ rest) =
          start' ++ (payload ++ (more ++ (start ++ rest))) := by
        rw [List.append_assoc, List.append_assoc]
      rw [hassoc] at h ⊢
      have hsize := UInt64.toNat_ofNat_of_lt' (h.start_lt first)
      have hread := readObuStart_append first (payload ++ (more ++ (start ++ rest)))
      have hlong : payload.length ≤ (payload ++ (more ++ (start ++ rest))).length := by
        rw [List.length_append]
        exact Nat.le_add_right _ _
      have hnext : before ++ (start' ++ (payload ++ (more ++ (start ++ rest)))) =
          before ++ start' ++ payload ++ (more ++ (start ++ rest)) := by
        rw [List.append_assoc, List.append_assoc]
      rw [hnext] at h
      rw [splitObusFrom_of_some hread, hsize, if_neg (Nat.not_lt_of_le hlong), List.drop_left,
        ih _ h, Option.map_none, ite_self]

theorem splitObusFrom_inOrder {total : ℕ} {obus : List (ObuHeader × Buf)}
    (h : splitObusFrom total data = some obus) : InOrder (obus.map Prod.snd) data := by
  fun_induction splitObusFrom total data generalizing obus with
  | case1 data hstart =>
      obtain rfl := Option.some.inj h
      exact .nil
  | case2 data header size rest hstart _ hfar => exact absurd h.symm (Option.some_ne_none obus)
  | case3 data header size rest hstart _ hnear hshort =>
      obtain rfl := Option.some.inj h
      exact .nil
  | case4 data header size rest hstart _ hnear hlong ih =>
      obtain ⟨later, hlater, rfl⟩ := Option.map_eq_some_iff.mp h
      obtain ⟨byte, start, rfl⟩ := readObuStart_suffix hstart
      have horder : InOrder (rest.take size.toNat :: later.map Prod.snd)
          (byte :: start ++ (rest.take size.toNat ++ rest.drop size.toNat)) := (ih hlater).cons
      rw [List.take_append_drop] at horder
      exact horder

/-! ## Exactly when -/

/-- Bytes are parsed safely exactly if no size in them has more than 64 bits, and no OBU
that is reached ends beyond 64 bits. -/
theorem safelyParsed_iff (data : Buf) : SafelyParsed data ↔ SizesFit data ∧ EndsFit data := by
  constructor
  · intro h
    have hsizes := (exact_iff_sizesFit data).mp h.exact
    refine ⟨hsizes, ?_⟩
    rintro before start rest header n rfl hbefore hstarts
    by_contra hfar
    obtain ⟨obus, hobus, -⟩ := h.split
    have hlength : (before ++ (start ++ rest)).length - rest.length =
        before.length + start.length := by
      rw [List.length_append, List.length_append]
      omega
    have hnone := splitObusFrom_eq_none [] hsizes hbefore hstarts
      (hlength.symm ▸ Nat.le_of_not_lt hfar)
    exact absurd (hobus.symm.trans hnone) (Option.some_ne_none obus)
  · rintro ⟨hsizes, hends⟩
    have hsplit : ∃ obus, splitObus data = some obus := by
      by_contra hnot
      have hnone : splitObus data = none := by
        cases hobus : splitObus data with
        | none => rfl
        | some obus => exact absurd ⟨obus, hobus⟩ hnot
      obtain ⟨pre, start, rest, header, n, rfl, hpre, hstarts, hfar⟩ :=
        exists_far_of_none [] hsizes hnone
      have hnear := hends pre start rest header n rfl hpre hstarts
      rw [List.length_append, List.length_append] at hfar
      omega
    obtain ⟨obus, hobus⟩ := hsplit
    refine ⟨⟨obus, hobus, splitObusFrom_inOrder hobus⟩, ?_, (exact_iff_sizesFit data).mpr hsizes⟩
    obtain ⟨b, hb⟩ := firstFrameIsKey_isSome obus
    refine ⟨b, ?_⟩
    rw [isKeyframeObu, hobus]
    exact hb

/-- A size of 2^64 - 1, and one of 2^64. -/
theorem not_safelyParsed :
    ¬ SafelyParsed [0x0A, 0xFF, 0xFF, 0xFF, 0xFF, 0xFF, 0xFF, 0xFF, 0xFF, 0xFF, 0x01] ∧
      ¬ SafelyParsed [0x0A, 0x80, 0x80, 0x80, 0x80, 0x80, 0x80, 0x80, 0x80, 0x80, 0x02] := by
  constructor
  · intro h
    obtain ⟨obus, hobus, -⟩ := h.split
    have hread : readObuStart [0x0A, 0xFF, 0xFF, 0xFF, 0xFF, 0xFF, 0xFF, 0xFF, 0xFF, 0xFF, 0x01] =
        some (⟨1, true, false⟩, 0xFFFFFFFFFFFFFFFF, []) := by decide +kernel
    rw [splitObus, splitObusFrom_of_some hread, if_pos (by decide)] at hobus
    exact absurd hobus.symm (Option.some_ne_none obus)
  · intro h
    obtain ⟨hi, b, low, heq, -, -, -, hvalue⟩ := (h.exact 1 0 10 (by decide +kernel)).split
    obtain ⟨rfl, hlast⟩ := List.append_inj'
      (show [0x80, 0x80, 0x80, 0x80, 0x80, 0x80, 0x80, 0x80, 0x80] ++ [0x02] = hi ++ [b] from heq) rfl
    obtain rfl := List.singleton_inj.mp hlast
    exact absurd hvalue (Nat.ne_of_lt (Nat.lt_add_left low (by decide)))

end Wzp.Video
