import Wzp.Video.Av1Obu

/-!
# What framing keeps of an AV1 stream

An OBU has a type, perhaps an extension byte, and a payload. Its header byte announces
the extension byte by one bit, and the size of the payload has many encodings.
-/
namespace Wzp.Video
open Bytes

/-- The bit of the header byte that announces the extension byte: the last one, where
`ObuHeader` has it, or the third from the end, where AV1 has it. -/
inductive ExtensionBit where
  | last
  | third

def ExtensionBit.mask : ExtensionBit → UInt8
  | .last => 0x01
  | .third => 0x04

structure Obu where
  obuType : UInt8
  extension : Option UInt8
  payload : Buf
  obuType_lt : obuType < 16

namespace Obu

def headerByte (bit : ExtensionBit) (o : Obu) : UInt8 :=
  o.obuType <<< 3 ||| (if o.extension.isSome then bit.mask else 0) ||| 0x02

/-- The bytes are the OBU, with its size in any encoding of at most ten bytes. -/
def Written (bit : ExtensionBit) (o : Obu) (bytes : Buf) : Prop :=
  ∃ size, Leb128.Encodes o.payload.length size ∧ size.length ≤ 10 ∧
    bytes = o.headerByte bit :: (o.extension.toList ++ size ++ o.payload)

/-- What is read of it. -/
def entry (o : Obu) : ObuHeader × Buf := (⟨o.obuType, true, o.extension.isSome⟩, o.payload)

end Obu

/-- The bytes are the OBUs one after the other. -/
inductive ObuStream (bit : ExtensionBit) : List Obu → Buf → Prop where
  | nil : ObuStream bit [] []
  | cons {o : Obu} {obus : List Obu} {bytes rest : Buf} (first : o.Written bit bytes)
      (more : ObuStream bit obus rest) : ObuStream bit (o :: obus) (bytes ++ rest)

/-- The packets of the access unit fit, or have one OBU each, and what is made of them
are its OBUs. -/
def Preserves (bit : ExtensionBit) (maxPayload : ℕ) (obus : List Obu) (accessUnit : Buf) : Prop :=
  ∃ packets out, (Av1ObuFramer.mk maxPayload).frame accessUnit = some packets ∧
    (Av1Depacketizer.new.pushFrame packets).2 =
      List.replicate (packets.length - 1) none ++ [some out] ∧
    ObuStream bit obus out ∧
    ∀ p ∈ packets, p.length ≤ maxPayload ∨ ∃ o ∈ obus, o.Written bit p

/-! ## Headers -/

section Headers
variable {bit : ExtensionBit} {o : Obu}

theorem fromByte_last (isSome : Bool) : ∀ obuType : UInt8, obuType < 16 →
    ObuHeader.fromByte (obuType <<< 3 ||| (if isSome then 0x01 else 0) ||| 0x02) =
      ⟨obuType, true, isSome⟩ := by
  cases isSome <;> exact forall_byte (by decide +kernel)

theorem toByte_eq (isSome : Bool) : ∀ obuType : UInt8, obuType < 16 →
    ObuHeader.toByte ⟨obuType, true, isSome⟩ =
      obuType <<< 3 ||| (if isSome then 0x01 else 0) ||| 0x02 := by
  cases isSome <;> exact forall_byte (by decide +kernel)

/-- The third bit from the end is never written. -/
theorem toByte_and_mask (header : ObuHeader) : header.toByte &&& ExtensionBit.third.mask = 0 := by
  obtain ⟨obuType, hasSizeField, extensionFlag⟩ := header
  revert obuType
  cases hasSizeField <;> cases extensionFlag <;> exact forall_byte (by decide +kernel)

theorem headerByte_and_mask (h : o.extension.isSome = true) :
    o.headerByte .third &&& ExtensionBit.third.mask ≠ 0 := by
  have hbit : ∀ obuType : UInt8, (obuType <<< 3 ||| 0x04 ||| 0x02) &&& 0x04 ≠ 0 :=
    forall_byte (by decide +kernel)
  rw [Obu.headerByte, if_pos h]
  exact hbit o.obuType

/-- The header byte is read as it was written. -/
def Obu.Readable (bit : ExtensionBit) (o : Obu) : Prop := bit = .last ∨ o.extension = none

theorem fromByte_headerByte (h : o.Readable bit) :
    ObuHeader.fromByte (o.headerByte bit) = o.entry.1 := by
  have hlast := fromByte_last o.extension.isSome o.obuType o.obuType_lt
  obtain rfl | hnone := h
  · exact hlast
  · rw [hnone] at hlast
    rw [Obu.headerByte, Obu.entry, hnone]
    exact hlast

theorem toByte_entry (h : o.Readable bit) :
    o.entry.1.toByte = o.headerByte bit := by
  have hlast := toByte_eq o.extension.isSome o.obuType o.obuType_lt
  obtain rfl | hnone := h
  · exact hlast
  · rw [hnone] at hlast
    rw [Obu.headerByte, Obu.entry, hnone]
    exact hlast

end Headers

/-! ## Reading -/

section Reading
variable {bit : ExtensionBit} {o : Obu} {obus : List Obu} {bytes : Buf}

/-- An OBU as it is written is read by its start. -/
theorem Obu.Written.startsObu (h : o.Written bit bytes) (hread : o.Readable bit) :
    ∃ start, bytes = start ++ o.payload ∧ StartsObu o.entry.1 o.payload.length start := by
  obtain ⟨size, hsize, hten, rfl⟩ := h
  refine ⟨o.headerByte bit :: (o.extension.toList ++ size), rfl, o.headerByte bit,
    o.extension.toList, size, rfl, fromByte_headerByte hread, rfl, ?_, hsize, hten⟩
  cases hextension : o.extension with
  | none => rw [show o.entry.1.extensionFlag = false from congrArg Option.isSome hextension]; rfl
  | some e => rw [show o.entry.1.extensionFlag = true from congrArg Option.isSome hextension]; rfl

theorem Obu.Written.readObuStart_append (hread : o.Readable bit) (h : o.Written bit bytes)
    (rest : Buf) :
    readObuStart (bytes ++ rest) =
      some (o.entry.1, UInt64.ofNat o.payload.length, o.payload ++ rest) := by
  obtain ⟨start, rfl, hstart⟩ := h.startsObu hread
  rw [List.append_assoc]
  exact Video.readObuStart_append hstart (o.payload ++ rest)

theorem Obu.Written.payload_le (h : o.Written bit bytes) : o.payload.length ≤ bytes.length := by
  obtain ⟨size, -, -, rfl⟩ := h
  rw [List.length_cons, List.length_append]
  omega

theorem splitObusFrom_append {total : ℕ} (h : ObuStream bit obus bytes)
    (hread : ∀ o ∈ obus, o.Readable bit) (rest : Buf) (htotal : bytes.length + rest.length ≤ total)
    (hsmall : total < 2 ^ 64) :
    splitObusFrom total (bytes ++ rest) =
      (splitObusFrom total rest).map (obus.map Obu.entry ++ ·) := by
  induction h with
  | nil =>
      rw [List.nil_append, List.map_nil]
      exact Option.map_id'.symm
  | @cons o obus bytes more first hmore ih =>
      rw [List.length_append] at htotal
      have hpayload := first.payload_le
      have hstart := first.readObuStart_append (hread o List.mem_cons_self) (more ++ rest)
      have hlength : (UInt64.ofNat o.payload.length).toNat = o.payload.length :=
        UInt64.toNat_ofNat_of_lt' (show _ < 2 ^ 64 by omega)
      have hfits : (o.payload ++ (more ++ rest)).length =
          o.payload.length + (more.length + rest.length) := by
        rw [List.length_append, List.length_append]
      have hnext := ih (fun o' ho' => hread o' (List.mem_cons_of_mem o ho')) (by omega)
      rw [List.append_assoc, splitObusFrom_of_some hstart, hlength, if_neg (by omega),
        if_neg (by omega), List.drop_left, List.take_left, hnext, Option.map_map]
      rfl

theorem ObuStream.payload_le (h : ObuStream bit obus bytes) :
    ∀ o ∈ obus, o.payload.length ≤ bytes.length := by
  induction h with
  | nil => exact fun o ho => absurd ho List.not_mem_nil
  | cons first more ih =>
      intro o ho
      rw [List.length_append]
      obtain rfl | ho := List.mem_cons.mp ho
      · exact Nat.le_add_right_of_le first.payload_le
      · exact Nat.le_add_left_of_le (ih o ho)

theorem splitObus_of_readable (h : ObuStream bit obus bytes) (hread : ∀ o ∈ obus, o.Readable bit)
    (hlength : bytes.length < 2 ^ 64) : splitObus bytes = some (obus.map Obu.entry) := by
  have hsplit := splitObusFrom_append h hread [] (Nat.le_refl bytes.length) hlength
  have hend : splitObusFrom bytes.length [] = some [] := splitObusFrom_of_none rfl
  rw [List.append_nil, hend, Option.map_some, List.append_nil] at hsplit
  exact hsplit

end Reading

/-! ## Writing -/

section Writing
open Av1ObuFramer
variable {bit : ExtensionBit} {o : Obu} {obus : List Obu} {bytes : Buf}

theorem obuData_entry (hpayload : o.payload.length < 2 ^ 64) :
    obuData o.entry =
      o.entry.1.toByte :: (Leb128.encode o.payload.length ++ o.payload) := by
  have hsize : (UInt64.ofNat o.payload.length).toNat = o.payload.length :=
    UInt64.toNat_ofNat_of_lt' hpayload
  rw [obuData, writeLeb128_eq]
  exact hsize.symm ▸ rfl

theorem written_obuData (hextension : o.extension = none) (hpayload : o.payload.length < 2 ^ 64) :
    o.Written bit (obuData o.entry) := by
  refine ⟨Leb128.encode o.payload.length, Leb128.encodes_encode _,
    Leb128.length_encode_le_of_lt (hpayload.trans (by decide)), ?_⟩
  rw [obuData_entry hpayload, toByte_entry (Or.inr hextension), hextension]
  rfl

/-- OBUs without extension are written as they were. -/
theorem obuStream_obuData (hextension : ∀ o ∈ obus, o.extension = none)
    (hpayload : ∀ o ∈ obus, o.payload.length < 2 ^ 64) :
    ObuStream bit obus ((obus.map Obu.entry).flatMap obuData) := by
  induction obus with
  | nil => exact .nil
  | cons o obus ih =>
      have hrest := ih (fun o' ho' => hextension o' (List.mem_cons_of_mem o ho'))
        fun o' ho' => hpayload o' (List.mem_cons_of_mem o ho')
      exact .cons (written_obuData (hextension o List.mem_cons_self)
        (hpayload o List.mem_cons_self)) hrest

/-- One byte at least is missing for each extension. -/
theorem length_obuData_le (h : ObuStream bit obus bytes)
    (hpayload : ∀ o ∈ obus, o.payload.length < 2 ^ 64) :
    ((obus.map Obu.entry).flatMap obuData).length +
      obus.countP (fun o => o.extension.isSome) ≤ bytes.length := by
  induction h with
  | nil => exact Nat.le_refl 0
  | @cons o obus bytes rest first more ih =>
      obtain ⟨size, hsize, -, rfl⟩ := first
      have hrest := ih fun o' ho' => hpayload o' (List.mem_cons_of_mem o ho')
      have hshort := Leb128.length_encode_le hsize
      have hcount : (if o.extension.isSome then 1 else 0) = o.extension.toList.length := by
        cases o.extension <;> rfl
      rw [List.map_cons, List.flatMap_cons, obuData_entry (hpayload o List.mem_cons_self),
        List.countP_cons, hcount]
      simp only [List.length_append, List.length_cons]
      omega

end Writing

/-! ## Streams -/

section Streams
variable {bit : ExtensionBit} {o : Obu} {pre post obus : List Obu} {bytes bytes' rest rest' : Buf}

theorem ObuStream.split (h : ObuStream bit (pre ++ post) bytes) :
    ∃ first more, bytes = first ++ more ∧ ObuStream bit pre first ∧ ObuStream bit post more := by
  induction pre generalizing bytes with
  | nil => exact ⟨[], bytes, rfl, .nil, h⟩
  | cons o pre ih =>
      cases h with
      | @cons _ _ b bs hfirst hmore =>
          obtain ⟨first, more, rfl, hpre, hpost⟩ := ih hmore
          exact ⟨b ++ first, more, (List.append_assoc b first more).symm, .cons hfirst hpre, hpost⟩

/-- Where the OBUs end does not depend on how their sizes are written. -/
theorem ObuStream.append_inj (h : ObuStream bit obus bytes) (h' : ObuStream bit obus bytes')
    (heq : bytes ++ rest = bytes' ++ rest') : rest = rest' := by
  induction h generalizing bytes' with
  | nil =>
      cases h'
      exact heq
  | cons first more ih =>
      cases h' with
      | cons first' more' =>
          obtain ⟨size, hsize, -, rfl⟩ := first
          obtain ⟨size', hsize', -, rfl⟩ := first'
          simp only [List.cons_append, List.append_assoc, List.cons.injEq, true_and,
            List.append_cancel_left_eq] at heq
          obtain ⟨-, htail⟩ := hsize.append_inj hsize' heq
          exact ih more' (List.append_cancel_left htail)

theorem ObuStream.headerByte (h : ObuStream bit (o :: post) bytes) :
    ∃ more, bytes = o.headerByte bit :: more := by
  cases h with
  | cons first more =>
      obtain ⟨size, -, -, rfl⟩ := first
      exact ⟨_, rfl⟩

theorem exists_first_extension (h : ∃ o ∈ obus, o.extension.isSome = true) :
    ∃ pre o post, obus = pre ++ o :: post ∧ (∀ o' ∈ pre, o'.extension = none) ∧
      o.extension.isSome = true := by
  induction obus with
  | nil =>
      obtain ⟨o, ho, -⟩ := h
      exact absurd ho List.not_mem_nil
  | cons o obus ih =>
      cases hextension : o.extension with
      | some extension =>
          refine ⟨[], o, obus, rfl, fun o' ho' => absurd ho' List.not_mem_nil, ?_⟩
          rw [hextension]
          rfl
      | none =>
          have hlater : ∃ o' ∈ obus, o'.extension.isSome = true := by
            obtain ⟨o', ho', hsome⟩ := h
            obtain rfl | ho' := List.mem_cons.mp ho'
            · rw [hextension] at hsome
              exact nomatch hsome
            · exact ⟨o', ho', hsome⟩
          obtain ⟨pre, o', post, rfl, hpre, hsome⟩ := ih hlater
          refine ⟨o :: pre, o', post, rfl, fun x hx => ?_, hsome⟩
          obtain rfl | hx := List.mem_cons.mp hx
          · exact hextension
          · exact hpre x hx

end Streams

/-! ## Exactly without extensions -/

section Preserving
open Av1ObuFramer
variable {bit : ExtensionBit} {maxPayload : ℕ} {obus : List Obu} {accessUnit : Buf}
  {entries : List (ObuHeader × Buf)}

/-- What comes back are the OBUs that were read. -/
theorem Preserves.obuStream (h : Preserves bit maxPayload obus accessUnit)
    (hentries : splitObus accessUnit = some entries) :
    ObuStream bit obus (entries.flatMap obuData) := by
  obtain ⟨packets, out, hframe, hout, hstream, -⟩ := h
  obtain ⟨packets', hframe', hflatten, -, hne⟩ := frame_spec ⟨maxPayload⟩ hentries
  obtain rfl := Option.some.inj (hframe.symm.trans hframe')
  have hpackets : packets ≠ [] := by
    rintro rfl
    exact nomatch hout
  rw [Av1Depacketizer.pushFrame_spec hpackets hne] at hout
  have hwhole : packets.flatten = out :=
    Option.some.inj (List.cons.inj (List.append_cancel_left hout)).1
  rw [← hflatten, hwhole]
  exact hstream

theorem preserves_of_noExtension (h : ObuStream bit obus accessUnit) (hobus : obus ≠ [])
    (hlength : accessUnit.length < 2 ^ 64) (hextension : ∀ o ∈ obus, o.extension = none) :
    Preserves bit maxPayload obus accessUnit := by
  have hpayload : ∀ o ∈ obus, o.payload.length < 2 ^ 64 := fun o ho =>
    Nat.lt_of_le_of_lt (h.payload_le o ho) hlength
  have hsplit := splitObus_of_readable h (fun o ho => Or.inr (hextension o ho)) hlength
  obtain ⟨packets, hframe, hflatten, hfits, hne⟩ := frame_spec ⟨maxPayload⟩ hsplit
  have hstream : ObuStream bit obus packets.flatten :=
    hflatten ▸ obuStream_obuData hextension hpayload
  have hpackets : packets ≠ [] := by
    rintro rfl
    obtain ⟨o, rest, rfl⟩ := List.exists_cons_of_ne_nil hobus
    obtain ⟨more, hmore⟩ := hstream.headerByte
    exact nomatch hmore
  refine ⟨packets, packets.flatten, hframe, ?_, hstream, fun p hp => ?_⟩
  · exact Av1Depacketizer.pushFrame_spec hpackets hne .new
  · refine (hfits p hp).imp_right ?_
    rintro ⟨entry, hentry, rfl⟩
    obtain ⟨o, ho, rfl⟩ := List.mem_map.mp hentry
    exact ⟨o, ho, written_obuData (hextension o ho) (hpayload o ho)⟩

/-- The extension byte is skipped and not written again. -/
theorem not_preserves_last (h : ObuStream .last obus accessUnit)
    (hlength : accessUnit.length < 2 ^ 64) (hextension : ∃ o ∈ obus, o.extension.isSome = true) :
    ¬ Preserves .last maxPayload obus accessUnit := by
  intro hpreserves
  have hpayload : ∀ o ∈ obus, o.payload.length < 2 ^ 64 := fun o ho =>
    Nat.lt_of_le_of_lt (h.payload_le o ho) hlength
  have hsplit := splitObus_of_readable h (fun _ _ => Or.inl rfl) hlength
  have hback := length_obuData_le (hpreserves.obuStream hsplit) hpayload
  have hcount : 0 < obus.countP fun o => o.extension.isSome :=
    List.countP_pos_iff.mpr hextension
  omega

/-- The third bit is not written, whatever is read from the extension byte on. -/
theorem not_preserves_third (h : ObuStream .third obus accessUnit)
    (hlength : accessUnit.length < 2 ^ 64) (hextension : ∃ o ∈ obus, o.extension.isSome = true) :
    ¬ Preserves .third maxPayload obus accessUnit := by
  intro hpreserves
  have hpayload : ∀ o ∈ obus, o.payload.length < 2 ^ 64 := fun o ho =>
    Nat.lt_of_le_of_lt (h.payload_le o ho) hlength
  obtain ⟨pre, o, post, rfl, hpre, hsome⟩ := exists_first_extension hextension
  obtain ⟨first, more, rfl, hfirst, -⟩ := h.split
  have hsplit : splitObus (first ++ more) = _ :=
    splitObusFrom_append hfirst (fun o' ho' => Or.inr (hpre o' ho')) more
      (Nat.le_of_eq List.length_append.symm) hlength
  cases hmore : splitObusFrom (first ++ more).length more with
  | none =>
      rw [hmore] at hsplit
      obtain ⟨packets, out, hframe, -⟩ := hpreserves
      have hnone : (Av1ObuFramer.mk maxPayload).frame (first ++ more) = none := by
        rw [frame, hsplit]
        rfl
      exact absurd (hframe.symm.trans hnone) (Option.some_ne_none packets)
  | some entries =>
      rw [hmore, Option.map_some] at hsplit
      have hback := hpreserves.obuStream hsplit
      rw [List.flatMap_append] at hback
      obtain ⟨first', more', heq, hfirst', hmore'⟩ := hback.split
      have hwritten : ObuStream .third pre ((pre.map Obu.entry).flatMap obuData) :=
        obuStream_obuData hpre fun o' ho' => hpayload o' (List.mem_append_left _ ho')
      obtain ⟨tail, htail⟩ := hmore'.headerByte
      have hentries := (hwritten.append_inj hfirst' heq).trans htail
      cases entries with
      | nil => exact absurd hentries.symm (List.cons_ne_nil _ _)
      | cons entry entries =>
          have hheader : entry.1.toByte = o.headerByte .third := (List.cons.inj hentries).1
          exact headerByte_and_mask hsome (hheader ▸ toByte_and_mask entry.1)

/-- Framing preserves the OBUs of an access unit exactly if none of them has an extension
byte. -/
theorem preserves_iff (h : ObuStream bit obus accessUnit) (hobus : obus ≠ [])
    (hlength : accessUnit.length < 2 ^ 64) :
    Preserves bit maxPayload obus accessUnit ↔ ∀ o ∈ obus, o.extension = none := by
  constructor
  · intro hpreserves o ho
    by_contra hsome
    have hextension : ∃ o ∈ obus, o.extension.isSome = true :=
      ⟨o, ho, Option.isSome_iff_ne_none.mpr hsome⟩
    cases bit with
    | last => exact not_preserves_last h hlength hextension hpreserves
    | third => exact not_preserves_third h hlength hextension hpreserves
  · exact preserves_of_noExtension h hobus hlength

def frameObu : Obu := ⟨6, none, [1, 2], by decide⟩

def tileObu : Obu := ⟨4, none, [3], by decide⟩

/-- The size of the first OBU has one byte more than it needs. -/
theorem obuStream_twoObus :
    ObuStream .last [frameObu, tileObu] [0x32, 0x82, 0, 1, 2, 0x22, 1, 3] := by
  have hframe : frameObu.Written .last [0x32, 0x82, 0, 1, 2] :=
    ⟨[0x82, 0], .more (b := 0x82) (by decide) (.last (b := 0) (by decide)), by decide, rfl⟩
  have htile : tileObu.Written .last [0x22, 1, 3] :=
    ⟨[1], .last (b := 1) (by decide), by decide, rfl⟩
  exact .cons hframe (.cons htile .nil)

theorem preserves_twoObus :
    Preserves .last 4 [frameObu, tileObu] [0x32, 0x82, 0, 1, 2, 0x22, 1, 3] :=
  (preserves_iff obuStream_twoObus (List.cons_ne_nil _ _) (by decide)).mpr (by decide)

def extendedObu : Obu := ⟨6, some 8, [1, 2], by decide⟩

/-- The extension byte 8 of an OBU is lost, whichever bit announces it. -/
theorem not_preserves_extendedObu :
    (ObuStream .last [extendedObu] [0x33, 8, 2, 1, 2] ∧
      ¬ Preserves .last 1200 [extendedObu] [0x33, 8, 2, 1, 2]) ∧
    (ObuStream .third [extendedObu] [0x36, 8, 2, 1, 2] ∧
      ¬ Preserves .third 1200 [extendedObu] [0x36, 8, 2, 1, 2]) := by
  have hsize : Leb128.Encodes extendedObu.payload.length [2] := .last (b := 2) (by decide)
  have hlast : ObuStream .last [extendedObu] [0x33, 8, 2, 1, 2] :=
    .cons ⟨[2], hsize, by decide, rfl⟩ .nil
  have hthird : ObuStream .third [extendedObu] [0x36, 8, 2, 1, 2] :=
    .cons ⟨[2], hsize, by decide, rfl⟩ .nil
  have hextension : ∃ o ∈ [extendedObu], o.extension.isSome = true :=
    ⟨extendedObu, List.mem_cons_self, rfl⟩
  exact ⟨⟨hlast, not_preserves_last hlast (by decide) hextension⟩,
    ⟨hthird, not_preserves_third hthird (by decide) hextension⟩⟩

end Preserving

end Wzp.Video
