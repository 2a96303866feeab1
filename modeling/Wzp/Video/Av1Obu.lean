import Wzp.Lib.BitWords
import Wzp.Lib.Leb128

/-!
# AV1 access units in packets

An access unit is read as a sequence of OBUs, each of which is written again and put
into a packet with others, as long as there is room.
-/
namespace Wzp.Video
open Bytes

structure ObuHeader where
  obuType : UInt8
  hasSizeField : Bool
  extensionFlag : Bool
  deriving DecidableEq, Repr

namespace ObuHeader

def fromByte (byte : UInt8) : ObuHeader where
  obuType := byte >>> 3 &&& 0x0F
  hasSizeField := byte >>> 1 &&& 0x01 != 0
  extensionFlag := byte &&& 0x01 != 0

def toByte (self : ObuHeader) : UInt8 :=
  (self.obuType &&& 0x0F) <<< 3 ||| (if self.hasSizeField then 0x02 else 0) |||
    (if self.extensionFlag then 0x01 else 0)

end ObuHeader

/-! ## Sizes -/

/-- The loop of `read_leb128`: the value so far, and how many bytes it took. -/
def readLeb128Loop : Buf → UInt64 → ℕ → ℕ → Option (UInt64 × ℕ)
  | [], _, _, _ => none
  | byte :: rest, value, shift, consumed =>
      let value := value ||| (byte &&& 0x7F).toUInt64 <<< UInt64.ofNat shift
      if byte &&& 0x80 = 0 then some (value, consumed + 1)
      else if 64 ≤ shift + 7 then none
      else readLeb128Loop rest value (shift + 7) (consumed + 1)

def readLeb128 (data : Buf) : Option (UInt64 × ℕ) := readLeb128Loop data 0 0 0

theorem toNat_shiftRight_seven (v : UInt64) : (v >>> 7).toNat = v.toNat / 128 := by
  rw [UInt64.toNat_shiftRight]
  exact Nat.shiftRight_eq_div_pow _ 7

theorem shiftRight_seven_lt {v : UInt64} (h : v >>> 7 ≠ 0) : (v >>> 7).toNat < v.toNat := by
  have hne : (v >>> 7).toNat ≠ 0 := fun hzero => h (UInt64.toNat_inj.mp hzero)
  rw [toNat_shiftRight_seven] at hne ⊢
  omega

def writeLeb128 (value : UInt64) : Buf :=
  let byte := (value &&& 0x7F).toUInt8
  if hmore : value >>> 7 ≠ 0 then
    have := shiftRight_seven_lt hmore
    (byte ||| 0x80) :: writeLeb128 (value >>> 7)
  else [byte]
termination_by value.toNat

/-- One more group of seven bits above those that were read, without the bits that do not
fit. -/
theorem or_group {value : UInt64} {byte : UInt8} {k : ℕ} (hk : 7 * k < 64)
    (hvalue : value.toNat < 2 ^ (7 * k)) :
    value ||| (byte &&& 0x7F).toUInt64 <<< UInt64.ofNat (7 * k) =
      UInt64.ofNat (value.toNat + byte.toNat % 128 * 2 ^ (7 * k)) := by
  have hlow : (byte &&& 0x7F).toUInt64.toNat = byte.toNat % 128 := by
    rw [UInt8.toNat_toUInt64, UInt8.toNat_and]
    exact Nat.and_two_pow_sub_one_eq_mod _ 7
  apply UInt64.toNat_inj.mp
  rw [UInt64.toNat_or, UInt64.toNat_shiftLeft, BitWords.toNat_shiftAmount hk, hlow,
    UInt64.toNat_ofNat', ← Nat.mod_eq_of_lt value.toNat_lt, ← Nat.or_mod_two_pow, Nat.or_comm,
    Nat.mod_eq_of_lt value.toNat_lt, ← Nat.shiftLeft_add_eq_or_of_lt hvalue, Nat.shiftLeft_eq,
    Nat.add_comm]

theorem and_0x80_eq_zero : ∀ byte : UInt8, byte &&& 0x80 = 0 ↔ byte.toNat < 128 :=
  forall_byte (by decide +kernel)

/-- An encoding of at most ten bytes is read, whatever follows it, and of the number those
bits that fit. -/
theorem readLeb128Loop_append {n : ℕ} {bytes : Buf} (h : Leb128.Encodes n bytes) (rest : Buf)
    {value : UInt64} {k : ℕ} (consumed : ℕ) (hk : k + bytes.length ≤ 10)
    (hvalue : value.toNat < 2 ^ (7 * k)) :
    readLeb128Loop (bytes ++ rest) value (7 * k) consumed =
      some (UInt64.ofNat (value.toNat + n * 2 ^ (7 * k)), consumed + bytes.length) := by
  induction h generalizing value k consumed with
  | @last b hlt =>
      rw [List.length_singleton] at hk
      rw [List.singleton_append, readLeb128Loop, if_pos ((and_0x80_eq_zero b).mpr hlt),
        or_group (show 7 * k < 64 by omega) hvalue, Nat.mod_eq_of_lt hlt]
      rfl
  | @more b n bytes hge hrest ih =>
      have hlength := List.length_pos_iff.mpr hrest.ne_nil
      rw [List.length_cons] at hk
      have hpow : 2 ^ (7 * (k + 1)) = 128 * 2 ^ (7 * k) := by
        rw [Nat.mul_succ, Nat.pow_add, Nat.mul_comm]
      have hsplit : (b.toNat % 128 + 128 * n) * 2 ^ (7 * k) =
          b.toNat % 128 * 2 ^ (7 * k) + n * 2 ^ (7 * (k + 1)) := by
        rw [hpow, Nat.add_mul, Nat.mul_comm 128 n, Nat.mul_assoc]
      have hsmall : value.toNat + b.toNat % 128 * 2 ^ (7 * k) < 2 ^ (7 * (k + 1)) := by
        have hle : b.toNat % 128 * 2 ^ (7 * k) ≤ 127 * 2 ^ (7 * k) :=
          Nat.mul_le_mul_right _ (by omega)
        omega
      -- at least one more byte follows, so this group fits
      have hfits : 2 ^ (7 * (k + 1)) ≤ 2 ^ 64 := Nat.pow_le_pow_right (by decide) (by omega)
      have hgroup : (UInt64.ofNat (value.toNat + b.toNat % 128 * 2 ^ (7 * k))).toNat =
          value.toNat + b.toNat % 128 * 2 ^ (7 * k) :=
        UInt64.toNat_ofNat_of_lt' (hsmall.trans_le hfits)
      rw [List.cons_append, readLeb128Loop,
        if_neg (mt (and_0x80_eq_zero b).mp (Nat.not_lt_of_le hge)), if_neg (by omega),
        or_group (show 7 * k < 64 by omega) hvalue]
      have hnext := ih (consumed + 1) (show k + 1 + bytes.length ≤ 10 by omega)
        (hgroup.symm ▸ hsmall)
      have hconsumed : consumed + (b :: bytes).length = consumed + 1 + bytes.length := by
        rw [List.length_cons]
        omega
      rw [hgroup, Nat.add_assoc] at hnext
      rw [hsplit, hconsumed]
      exact hnext

theorem readLeb128_append {n : ℕ} {bytes : Buf} (h : Leb128.Encodes n bytes)
    (hlength : bytes.length ≤ 10) (rest : Buf) :
    readLeb128 (bytes ++ rest) = some (UInt64.ofNat n, bytes.length) := by
  have hvalue : (0 : UInt64).toNat + n * 2 ^ (7 * 0) = n :=
    (Nat.zero_add _).trans (Nat.mul_one n)
  have hloop : readLeb128Loop (bytes ++ rest) 0 (7 * 0) 0 = _ :=
    readLeb128Loop_append h rest 0 (by omega) (by decide)
  rw [hvalue, Nat.zero_add] at hloop
  exact hloop

/-- The shortest encoding is written. -/
theorem writeLeb128_eq (v : UInt64) : writeLeb128 v = Leb128.encode v.toNat := by
  have hlow : ∀ v : UInt64, (v &&& 0x7F).toUInt8 = UInt8.ofNat (v.toNat % 128) := by
    intro v
    apply UInt8.toNat_inj.mp
    rw [UInt64.toNat_toUInt8, UInt64.toNat_and, UInt8.toNat_ofNat']
    exact congrArg (· % 2 ^ 8) (Nat.and_two_pow_sub_one_eq_mod _ 7)
  have hmark : ∀ n < 128, UInt8.ofNat n ||| 0x80 = UInt8.ofNat (n + 128) := by decide
  induction v using writeLeb128.induct with
  | case1 v hmore hlt ih =>
      have hge : 128 ≤ v.toNat := by
        have hpos : (v >>> 7).toNat ≠ 0 := fun h => hmore (UInt64.toNat_inj.mp h)
        rw [toNat_shiftRight_seven] at hpos
        omega
      rw [toNat_shiftRight_seven] at ih
      rw [writeLeb128, dif_pos hmore, hlow, hmark _ (Nat.mod_lt _ (by decide)), ih,
        Leb128.encode_of_le hge]
  | case2 v hlast =>
      have hlt : v.toNat < 128 := by
        have hzero := congrArg UInt64.toNat (not_not.mp hlast)
        rw [toNat_shiftRight_seven, UInt64.toNat_zero] at hzero
        omega
      rw [writeLeb128, dif_neg hlast, hlow, Leb128.encode_of_lt hlt, Nat.mod_eq_of_lt hlt]

/-! ## Splitting -/

/-- The length of the payload and what follows it, if there is a size field. -/
def readSizeField (header : ObuHeader) (rest : Buf) : Option (ObuHeader × UInt64 × Buf) :=
  if header.hasSizeField then
    (readLeb128 rest).map fun (size, consumed) => (header, size, rest.drop consumed)
  else none

/-- The start of an OBU, with the extension byte skipped. -/
def readObuStart : Buf → Option (ObuHeader × UInt64 × Buf)
  | [] => none
  | byte :: rest =>
      let header := ObuHeader.fromByte byte
      if header.extensionFlag then
        match rest with
        | [] => none
        | _ :: rest => readSizeField header rest
      else readSizeField header rest

/-- The bytes are a header byte, the extension byte if it announces one, and a size. -/
def StartsObu (header : ObuHeader) (n : ℕ) (start : Buf) : Prop :=
  ∃ byte extension size, start = byte :: (extension ++ size) ∧ ObuHeader.fromByte byte = header ∧
    header.hasSizeField = true ∧ extension.length = (if header.extensionFlag then 1 else 0) ∧
      Leb128.Encodes n size ∧ size.length ≤ 10

theorem readSizeField_append {header : ObuHeader} {n : ℕ} {size : Buf}
    (hheader : header.hasSizeField = true) (hsize : Leb128.Encodes n size)
    (hten : size.length ≤ 10) (rest : Buf) :
    readSizeField header (size ++ rest) = some (header, UInt64.ofNat n, rest) := by
  rw [readSizeField, if_pos hheader, readLeb128_append hsize hten, Option.map_some]
  dsimp only
  rw [List.drop_left]

/-- The start of an OBU is read, whatever follows it. -/
theorem readObuStart_append {header : ObuHeader} {n : ℕ} {start : Buf}
    (h : StartsObu header n start) (rest : Buf) :
    readObuStart (start ++ rest) = some (header, UInt64.ofNat n, rest) := by
  obtain ⟨byte, extension, size, rfl, rfl, hheader, hextension, hsize, hten⟩ := h
  have hfield := readSizeField_append hheader hsize hten rest
  rw [List.cons_append, readObuStart.eq_def]
  dsimp only
  split at hextension
  · next hflag =>
      obtain ⟨e, rfl⟩ := List.length_eq_one_iff.mp hextension
      rw [if_pos hflag, List.singleton_append, List.cons_append]
      exact hfield
  · next hflag =>
      rw [if_neg hflag, List.length_eq_zero_iff.mp hextension, List.nil_append]
      exact hfield

theorem readSizeField_suffix {data rest : Buf} {header header' : ObuHeader} {size : UInt64}
    (h : readSizeField header' data = some (header, size, rest)) : rest <:+ data := by
  unfold readSizeField at h
  split at h
  · obtain ⟨⟨_, consumed⟩, -, heq⟩ := Option.map_eq_some_iff.mp h
    obtain ⟨-, heq⟩ := Prod.mk.inj heq
    obtain ⟨-, rfl⟩ := Prod.mk.inj heq
    exact List.drop_suffix consumed data
  · exact nomatch h

/-- What comes after the start of an OBU is the end of the bytes after the first. -/
theorem readObuStart_suffix {data rest : Buf} {header : ObuHeader} {size : UInt64}
    (h : readObuStart data = some (header, size, rest)) :
    ∃ byte start, data = byte :: (start ++ rest) := by
  unfold readObuStart at h
  split at h
  · exact nomatch h
  · dsimp only at h
    split at h
    · split at h
      · exact nomatch h
      · next extension _ =>
          obtain ⟨start, rfl⟩ := readSizeField_suffix h
          exact ⟨_, extension :: start, rfl⟩
    · obtain ⟨start, rfl⟩ := readSizeField_suffix h
      exact ⟨_, start, rfl⟩

theorem length_readObuStart {data rest : Buf} {header : ObuHeader} {size : UInt64}
    (h : readObuStart data = some (header, size, rest)) : rest.length < data.length := by
  obtain ⟨byte, start, rfl⟩ := readObuStart_suffix h
  rw [List.length_cons, List.length_append]
  omega

/-- The loop of `split_obus` on what is left of `total` bytes. A sum of 64 bits that
overflows ends in a panic. -/
def splitObusFrom (total : ℕ) (data : Buf) : Option (List (ObuHeader × Buf)) :=
  match hstart : readObuStart data with
  | none => some []
  | some (header, size, rest) =>
      have := length_readObuStart hstart
      if 2 ^ 64 ≤ total - rest.length + size.toNat then none
      else if rest.length < size.toNat then some []
      else (splitObusFrom total (rest.drop size.toNat)).map ((header, rest.take size.toNat) :: ·)
termination_by data.length

theorem splitObusFrom_of_none {total : ℕ} {data : Buf} (h : readObuStart data = none) :
    splitObusFrom total data = some [] := by
  rw [splitObusFrom]
  split
  · rfl
  · rename_i hsome
    exact nomatch h.symm.trans hsome

theorem splitObusFrom_of_some {total : ℕ} {data rest : Buf} {header : ObuHeader} {size : UInt64}
    (h : readObuStart data = some (header, size, rest)) :
    splitObusFrom total data = if 2 ^ 64 ≤ total - rest.length + size.toNat then none
      else if rest.length < size.toNat then some []
      else (splitObusFrom total (rest.drop size.toNat)).map
        ((header, rest.take size.toNat) :: ·) := by
  rw [splitObusFrom]
  split
  · rename_i hnone
    exact nomatch h.symm.trans hnone
  · rename_i header' size' rest' hsome
    obtain ⟨rfl, heq⟩ := Prod.mk.inj (Option.some.inj (h.symm.trans hsome))
    obtain ⟨rfl, rfl⟩ := Prod.mk.inj heq
    rfl

def splitObus (data : Buf) : Option (List (ObuHeader × Buf)) := splitObusFrom data.length data

/-! ## Packets -/

structure Av1ObuFramer where
  maxPayload : ℕ

namespace Av1ObuFramer

def obuData (obu : ObuHeader × Buf) : Buf :=
  obu.1.toByte :: (writeLeb128 (UInt64.ofNat obu.2.length) ++ obu.2)

/-- The packets so far and the one that is being filled. -/
def add (self : Av1ObuFramer) (filled : List Buf × Buf) (obu : ObuHeader × Buf) : List Buf × Buf :=
  if !filled.2.isEmpty && self.maxPayload < filled.2.length + (obuData obu).length then
    (filled.1 ++ [filled.2], obuData obu)
  else (filled.1, filled.2 ++ obuData obu)

def frame (self : Av1ObuFramer) (accessUnit : Buf) : Option (List Buf) := do
  let obus ← splitObus accessUnit
  let (packets, current) := obus.foldl self.add ([], [])
  return if current.isEmpty then packets else packets ++ [current]

end Av1ObuFramer

structure Av1Depacketizer where
  buffer : Buf

namespace Av1Depacketizer

def new : Av1Depacketizer := ⟨[]⟩

def push (self : Av1Depacketizer) (payload : Buf) (isFrameEnd : Bool) :
    Av1Depacketizer × Option Buf :=
  let buffer := self.buffer ++ payload
  if isFrameEnd && !buffer.isEmpty then (⟨[]⟩, some buffer) else (⟨buffer⟩, none)

/-- The packets of a frame, the last one as its end. -/
def pushFrame : Av1Depacketizer → List Buf → Av1Depacketizer × List (Option Buf)
  | self, [] => (self, [])
  | self, payload :: rest =>
      let (next, out) := self.push payload rest.isEmpty
      ((next.pushFrame rest).1, out :: (next.pushFrame rest).2)

end Av1Depacketizer

/-! ## Packets together are the OBUs -/

namespace Av1ObuFramer
variable {framer : Av1ObuFramer} {obus : List (ObuHeader × Buf)} {filled : List Buf × Buf}

/-- A packet fits, or has one OBU. -/
def Fits (framer : Av1ObuFramer) (obus : List (ObuHeader × Buf)) (p : Buf) : Prop :=
  p.length ≤ framer.maxPayload ∨ ∃ obu ∈ obus, p = obuData obu

/-- Full packets, and one that is being filled, with the data of the OBUs. -/
structure Filled (framer : Av1ObuFramer) (obus : List (ObuHeader × Buf)) (filled : List Buf × Buf) :
    Prop where
  data : filled.1.flatten ++ filled.2 = obus.flatMap obuData
  fits : ∀ p ∈ filled.1, framer.Fits obus p
  nonempty : ∀ p ∈ filled.1, p ≠ []
  current : filled.2 ≠ [] → framer.Fits obus filled.2

theorem Fits.more {p : Buf} (h : framer.Fits obus p) (obu : ObuHeader × Buf) :
    framer.Fits (obus ++ [obu]) p :=
  h.imp_right fun ⟨obu', hmem, hp⟩ => ⟨obu', List.mem_append_left _ hmem, hp⟩

theorem Filled.add (h : framer.Filled obus filled) (obu : ObuHeader × Buf) :
    framer.Filled (obus ++ [obu]) (framer.add filled obu) := by
  have hsingle : framer.Fits (obus ++ [obu]) (obuData obu) :=
    Or.inr ⟨obu, List.mem_append_right _ List.mem_cons_self, rfl⟩
  unfold Av1ObuFramer.add
  split
  · rename_i hfull
    rw [Bool.and_eq_true, Bool.not_eq_true'] at hfull
    have hcurrent : filled.2 ≠ [] := List.isEmpty_eq_false_iff.mp hfull.1
    refine ⟨?_, fun p hp => ?_, fun p hp => ?_, fun _ => hsingle⟩
    · rw [List.flatten_append, List.flatten_singleton, h.data, List.flatMap_append,
        List.flatMap_singleton]
    · obtain hp | hp := List.mem_append.mp hp
      · exact (h.fits p hp).more obu
      · obtain rfl := List.mem_singleton.mp hp
        exact (h.current hcurrent).more obu
    · obtain hp | hp := List.mem_append.mp hp
      · exact h.nonempty p hp
      · obtain rfl := List.mem_singleton.mp hp
        exact hcurrent
  · rename_i hroom
    refine ⟨?_, fun p hp => (h.fits p hp).more obu, h.nonempty, fun _ => ?_⟩
    · rw [← List.append_assoc, h.data, List.flatMap_append, List.flatMap_singleton]
    · cases hempty : filled.2.isEmpty with
      | true =>
          rw [List.isEmpty_iff.mp hempty, List.nil_append]
          exact hsingle
      | false =>
          rw [hempty, Bool.not_false, Bool.true_and, decide_eq_true_eq] at hroom
          refine Or.inl ?_
          rw [List.length_append]
          exact Nat.le_of_not_lt hroom

theorem filled_foldl {obus' : List (ObuHeader × Buf)} (h : framer.Filled obus filled) :
    framer.Filled (obus ++ obus') (obus'.foldl framer.add filled) := by
  induction obus' generalizing obus filled with
  | nil =>
      rw [List.append_nil]
      exact h
  | cons obu obus' ih =>
      have hnext := ih (h.add obu)
      rw [List.append_assoc] at hnext
      exact hnext

/-- The packets of OBUs that were read: they have the data of the OBUs, and fit. -/
theorem frame_spec (framer : Av1ObuFramer) {accessUnit : Buf} (h : splitObus accessUnit = some obus) :
    ∃ packets, framer.frame accessUnit = some packets ∧ packets.flatten = obus.flatMap obuData ∧
      (∀ p ∈ packets, framer.Fits obus p) ∧ (∀ p ∈ packets, p ≠ []) := by
  have hstart : framer.Filled [] ([], []) :=
    ⟨rfl, fun p hp => absurd hp List.not_mem_nil, fun p hp => absurd hp List.not_mem_nil,
      fun hne => absurd rfl hne⟩
  have hfilled : framer.Filled obus (obus.foldl framer.add ([], [])) := filled_foldl hstart
  have hframe : framer.frame accessUnit = some (
      if (obus.foldl framer.add ([], [])).2.isEmpty then (obus.foldl framer.add ([], [])).1
      else (obus.foldl framer.add ([], [])).1 ++ [(obus.foldl framer.add ([], [])).2]) := by
    rw [frame, h]
    rfl
  rw [hframe]
  generalize obus.foldl framer.add ([], []) = filled at hfilled
  refine ⟨_, rfl, ?_⟩
  split
  · rename_i hempty
    have hdata := hfilled.data
    rw [List.isEmpty_iff.mp hempty, List.append_nil] at hdata
    exact ⟨hdata, hfilled.fits, hfilled.nonempty⟩
  · rename_i hcurrent
    have hne : filled.2 ≠ [] := fun hnil => hcurrent (List.isEmpty_iff.mpr hnil)
    refine ⟨?_, fun p hp => ?_, fun p hp => ?_⟩
    · rw [List.flatten_append, List.flatten_singleton]
      exact hfilled.data
    · obtain hp | hp := List.mem_append.mp hp
      · exact hfilled.fits p hp
      · obtain rfl := List.mem_singleton.mp hp
        exact hfilled.current hne
    · obtain hp | hp := List.mem_append.mp hp
      · exact hfilled.nonempty p hp
      · obtain rfl := List.mem_singleton.mp hp
        exact hne

end Av1ObuFramer

/-- With the last packet of a frame everything is returned. -/
theorem Av1Depacketizer.pushFrame_spec {packets : List Buf} (hpackets : packets ≠ [])
    (hne : ∀ p ∈ packets, p ≠ []) (d : Av1Depacketizer) :
    (d.pushFrame packets).2 =
      List.replicate (packets.length - 1) none ++ [some (d.buffer ++ packets.flatten)] := by
  induction packets generalizing d with
  | nil => exact absurd rfl hpackets
  | cons p packets ih =>
      cases packets with
      | nil =>
          have hbuffer : (d.buffer ++ p).isEmpty = false :=
            List.isEmpty_eq_false_iff.mpr
              (List.append_ne_nil_of_right_ne_nil _ (hne p List.mem_cons_self))
          rw [pushFrame, push, List.isEmpty_nil, hbuffer, List.flatten_singleton]
          rfl
      | cons p' packets =>
          have hrest := ih (List.cons_ne_nil p' packets)
            (fun q hq => hne q (List.mem_cons_of_mem p hq)) ⟨d.buffer ++ p⟩
          rw [List.append_assoc, ← List.flatten_cons] at hrest
          exact congrArg (none :: ·) hrest

end Wzp.Video
