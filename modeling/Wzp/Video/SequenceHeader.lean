import Wzp.Lib.Runs
import Wzp.Video.Av1Parsing
import Wzp.Video.Av1Stream

/-!
# The sequence header for the decoder

The decoder is configured with the sequence header of an AV1 stream, which is looked for
OBU by OBU. A position is a number of 64 bits, and a build may check that sums of them do
not overflow, or let them go around.
-/
namespace Wzp.Video
open Bytes Loops

def ObuType.sequenceHeader : UInt8 := 1

inductive Build where
  | checked
  | wrapping

inductive ExtractEnd where
  | panicked
  | returned (obu : Option Buf)
  deriving DecidableEq

def Build.add (build : Build) (i : ℕ) (payloadLen : UInt64) : Option ℕ :=
  if i + payloadLen.toNat < 2 ^ 64 then some (i + payloadLen.toNat)
  else
    match build with
    | .checked => none
    | .wrapping => some ((i + payloadLen.toNat) % 2 ^ 64)

/-- The body of the loop of `extract_sequence_header_obu`, at the position `i`. -/
def extractBody (build : Build) (data : Buf) (i : ℕ) : ℕ ⊕ ExtractEnd :=
  if data.length ≤ i then .inr (.returned none)
  else
    match readObuStart (data.drop i) with
    | none => .inr (.returned none)
    | some (header, payloadLen, rest) =>
        match build.add (data.length - rest.length) payloadLen with
        | none => .inr .panicked
        | some obuEnd =>
            if header.obuType = ObuType.sequenceHeader then
              .inr (.returned (if data.length < obuEnd then none else some (data.take obuEnd)))
            else .inl obuEnd

/-- How the extraction ends, if it does. -/
def Extraction (build : Build) (data : Buf) (result : ExtractEnd) : Prop :=
  Ends (extractBody build data) 0 result

/-! ## What is asked of the extraction -/

/-- The extraction returns, whether sums are checked or not. -/
def SafelyExtracted (data : Buf) : Prop :=
  ∀ build, ∃ obu, Extraction build data (.returned obu)

/-- The bytes are the OBUs, and these are those of the first sequence header. -/
inductive FirstHeader (bit : ExtensionBit) : List Obu → Buf → Option Buf → Prop where
  | nil : FirstHeader bit [] [] none
  | found {o : Obu} {obus : List Obu} {bytes rest : Buf} (first : o.Written bit bytes)
      (more : ObuStream bit obus rest) (header : o.obuType = ObuType.sequenceHeader) :
      FirstHeader bit (o :: obus) (bytes ++ rest) (some bytes)
  | later {o : Obu} {obus : List Obu} {bytes rest : Buf} {result : Option Buf}
      (first : o.Written bit bytes) (other : o.obuType ≠ ObuType.sequenceHeader)
      (more : FirstHeader bit obus rest result) : FirstHeader bit (o :: obus) (bytes ++ rest) result

/-- The extraction returns just that, whether sums are checked or not. -/
def Extracts (data : Buf) (obu : Option Buf) : Prop :=
  ∀ build, Extraction build data (.returned obu)

/-! ## When it is met -/

/-- Complete OBUs that are no sequence headers are passed over. -/
inductive Reaches : Buf → Buf → Prop where
  | here {data : Buf} : Reaches data data
  | skip {data rest later : Buf} {header : ObuHeader} {payloadLen : UInt64}
      (start : readObuStart data = some (header, payloadLen, rest))
      (other : header.obuType ≠ ObuType.sequenceHeader) (complete : payloadLen.toNat ≤ rest.length)
      (more : Reaches (rest.drop payloadLen.toNat) later) : Reaches data later

/-- No OBU that is reached ends at a position of more than 64 bits. -/
def NearEnds (total : ℕ) (data : Buf) : Prop :=
  ∀ later header payloadLen rest, Reaches data later →
    readObuStart later = some (header, payloadLen, rest) →
    total - rest.length + payloadLen.toNat < 2 ^ 64

/-- A complete sequence header that is reached ends at this position. -/
def HeaderEnds (total : ℕ) (data : Buf) (obuEnd : ℕ) : Prop :=
  ∃ later header payloadLen rest, Reaches data later ∧
    readObuStart later = some (header, payloadLen, rest) ∧
    header.obuType = ObuType.sequenceHeader ∧ payloadLen.toNat ≤ rest.length ∧
      obuEnd = total - rest.length + payloadLen.toNat

/-- If there is a sequence header, the stream begins with one. -/
def HeaderFirst (obus : List Obu) : Prop :=
  (∃ o ∈ obus, o.obuType = ObuType.sequenceHeader) →
    ∃ o ∈ obus.head?, o.obuType = ObuType.sequenceHeader

/-- What is read has a sequence header only where the stream has its first, and that one
ends where it does in the stream. -/
def ReadAsWritten (data : Buf) (obu : Option Buf) : Prop :=
  NearEnds data.length data ∧ ∀ obuEnd, HeaderEnds data.length data obuEnd ↔
    ∃ bytes ∈ obu, obuEnd = bytes.length

/-! ## The loop -/

section Loop
variable {build : Build} {data pre later rest : Buf} {header : ObuHeader} {payloadLen : UInt64}
  {obuEnd : ℕ}

theorem Build.add_of_lt {i : ℕ} (h : i + payloadLen.toNat < 2 ^ 64) :
    build.add i payloadLen = some (i + payloadLen.toNat) := if_pos h

theorem Build.add_of_ge {i : ℕ} (h : ¬ i + payloadLen.toNat < 2 ^ 64) :
    Build.checked.add i payloadLen = none := if_neg h

theorem extractBody_of_none (hdata : data = pre ++ later) (hstart : readObuStart later = none) :
    extractBody build data pre.length = .inr (.returned none) := by
  subst hdata
  rw [extractBody, List.drop_left, hstart]
  exact ite_self _

section Start
variable (hdata : data = pre ++ later)
  (hstart : readObuStart later = some (header, payloadLen, rest))
include hdata hstart

theorem extractBody_of_far (hfar : ¬ data.length - rest.length + payloadLen.toNat < 2 ^ 64) :
    extractBody .checked data pre.length = .inr .panicked := by
  have hlength := length_readObuStart hstart
  subst hdata
  have hin : ¬ (pre ++ later).length ≤ pre.length := by
    rw [List.length_append]
    omega
  rw [extractBody, if_neg hin, List.drop_left, hstart]
  dsimp only
  rw [Build.add_of_ge hfar]

variable (build) in
theorem extractBody_of_near (hnear : data.length - rest.length + payloadLen.toNat < 2 ^ 64) :
    extractBody build data pre.length =
      if header.obuType = ObuType.sequenceHeader then
        .inr (.returned (if data.length < data.length - rest.length + payloadLen.toNat then none
          else some (data.take (data.length - rest.length + payloadLen.toNat))))
      else .inl (data.length - rest.length + payloadLen.toNat) := by
  have hlength := length_readObuStart hstart
  subst hdata
  have hin : ¬ (pre ++ later).length ≤ pre.length := by
    rw [List.length_append]
    omega
  rw [extractBody, if_neg hin, List.drop_left, hstart]
  dsimp only
  rw [Build.add_of_lt hnear]

/-- The position after a complete OBU. -/
theorem exists_after (hcomplete : payloadLen.toNat ≤ rest.length) :
    ∃ pre', data = pre' ++ rest.drop payloadLen.toNat ∧
      data.length - rest.length + payloadLen.toNat = pre'.length := by
  obtain ⟨byte, start, rfl⟩ := readObuStart_suffix hstart
  refine ⟨pre ++ byte :: start ++ rest.take payloadLen.toNat, ?_, ?_⟩
  · rw [hdata, List.append_assoc, List.append_assoc, List.take_append_drop, List.cons_append]
  · rw [hdata, List.length_append, List.length_append, List.length_append, List.length_cons,
      List.length_cons, List.length_append, List.length_take_of_le hcomplete]
    omega

end Start

theorem NearEnds.skip {total : ℕ} (h : NearEnds total later)
    (hstart : readObuStart later = some (header, payloadLen, rest))
    (hother : header.obuType ≠ ObuType.sequenceHeader) (hcomplete : payloadLen.toNat ≤ rest.length) :
    NearEnds total (rest.drop payloadLen.toNat) :=
  fun _ _ _ _ hreaches => h _ _ _ _ (.skip hstart hother hcomplete hreaches)

theorem HeaderEnds.skip {total : ℕ} (h : HeaderEnds total (rest.drop payloadLen.toNat) obuEnd)
    (hstart : readObuStart later = some (header, payloadLen, rest))
    (hother : header.obuType ≠ ObuType.sequenceHeader) (hcomplete : payloadLen.toNat ≤ rest.length) :
    HeaderEnds total later obuEnd := by
  obtain ⟨later', header', payloadLen', rest', hreaches, hrest⟩ := h
  exact ⟨later', header', payloadLen', rest', .skip hstart hother hcomplete hreaches, hrest⟩

/-- An overflow that is reached ends in a panic. -/
theorem ends_of_far {last : Buf} (hreaches : Reaches later last) (hdata : data = pre ++ later)
    (hstart : readObuStart last = some (header, payloadLen, rest))
    (hfar : ¬ data.length - rest.length + payloadLen.toNat < 2 ^ 64) (result : ExtractEnd) :
    Ends (extractBody .checked data) pre.length result ↔ result = .panicked := by
  induction hreaches generalizing pre with
  | here => exact ends_of_break (extractBody_of_far hdata hstart hfar)
  | @skip later rest' last header' len hstart' hother hcomplete hmore ih =>
      by_cases hnear : data.length - rest'.length + len.toNat < 2 ^ 64
      · have hbody := extractBody_of_near .checked hdata hstart' hnear
        rw [if_neg hother] at hbody
        obtain ⟨pre', hdata', hpos⟩ := exists_after hdata hstart' hcomplete
        rw [ends_of_continue hbody, hpos]
        exact ih hdata' hstart
      · exact ends_of_break (extractBody_of_far hdata hstart' hnear)

/-- A complete sequence header that is reached is returned, with all that is before it. -/
theorem ends_of_headerEnds (hends : HeaderEnds data.length later obuEnd)
    (hnear : NearEnds data.length later) (hdata : data = pre ++ later) (result : ExtractEnd) :
    Ends (extractBody build data) pre.length result ↔
      result = .returned (some (data.take obuEnd)) := by
  obtain ⟨last, header, payloadLen, rest, hreaches, hstart, hheader, hcomplete, rfl⟩ := hends
  induction hreaches generalizing pre with
  | here =>
      have hbody := extractBody_of_near build hdata hstart
        (hnear _ _ _ _ .here hstart)
      have hlength : ¬ data.length < data.length - rest.length + payloadLen.toNat := by
        have hrest := length_readObuStart hstart
        rw [hdata, List.length_append]
        omega
      rw [if_pos hheader, if_neg hlength] at hbody
      exact ends_of_break hbody
  | @skip later rest' last header' len hstart' hother hcomplete' hmore ih =>
      have hbody := extractBody_of_near build hdata hstart'
        (hnear _ _ _ _ .here hstart')
      rw [if_neg hother] at hbody
      obtain ⟨pre', hdata', hpos⟩ := exists_after hdata hstart' hcomplete'
      rw [ends_of_continue hbody, hpos]
      exact ih (hnear.skip hstart' hother hcomplete') hdata' hstart

/-- Without one, nothing is returned. -/
theorem ends_of_no_header (hnone : ∀ obuEnd, ¬ HeaderEnds data.length later obuEnd)
    (hnear : NearEnds data.length later) (hdata : data = pre ++ later) (result : ExtractEnd) :
    Ends (extractBody build data) pre.length result ↔ result = .returned none := by
  induction hn : later.length using Nat.strong_induction_on generalizing pre later with
  | _ n ih =>
      cases hstart : readObuStart later with
      | none => exact ends_of_break (extractBody_of_none hdata hstart)
      | some start =>
          obtain ⟨header, payloadLen, rest⟩ := start
          have hbody := extractBody_of_near build hdata hstart
            (hnear _ _ _ _ .here hstart)
          have hlength := length_readObuStart hstart
          by_cases hcomplete : payloadLen.toNat ≤ rest.length
          · by_cases hheader : header.obuType = ObuType.sequenceHeader
            · exact absurd ⟨later, header, payloadLen, rest, .here, hstart, hheader, hcomplete, rfl⟩
                (hnone _)
            · rw [if_neg hheader] at hbody
              obtain ⟨pre', hdata', hpos⟩ := exists_after hdata hstart hcomplete
              rw [ends_of_continue hbody, hpos]
              refine ih _ ?_ (fun obuEnd h => hnone obuEnd (h.skip hstart hheader hcomplete))
                (hnear.skip hstart hheader hcomplete) hdata' rfl
              rw [List.length_drop]
              omega
          · have hbeyond : data.length < data.length - rest.length + payloadLen.toNat := by
              rw [hdata, List.length_append]
              omega
            rw [if_pos hbeyond] at hbody
            split at hbody
            · exact ends_of_break hbody
            · rw [ends_of_continue hbody]
              exact ends_of_break (if_pos hbeyond.le)

/-- Bytes are extracted from without an overflow exactly if every OBU that is reached ends
near enough. -/
theorem safelyExtracted_iff (data : Buf) : SafelyExtracted data ↔ NearEnds data.length data := by
  constructor
  · intro h last header payloadLen rest hreaches hstart
    by_contra hfar
    obtain ⟨obu, hobu⟩ := h .checked
    exact ExtractEnd.noConfusion ((ends_of_far hreaches (List.nil_append data).symm hstart hfar _).mp hobu)
  · intro h build
    by_cases hends : ∃ obuEnd, HeaderEnds data.length data obuEnd
    · obtain ⟨obuEnd, hends⟩ := hends
      exact ⟨_, (ends_of_headerEnds hends h (List.nil_append data).symm _).mpr rfl⟩
    · exact ⟨none, (ends_of_no_header (not_exists.mp hends) h (List.nil_append data).symm _).mpr rfl⟩

theorem Extracts.near {obu : Option Buf} (h : Extracts data obu) : NearEnds data.length data :=
  (safelyExtracted_iff data).mp fun build => ⟨obu, h build⟩

theorem extracts_iff_of_headerEnds (hends : HeaderEnds data.length data obuEnd)
    (hnear : NearEnds data.length data) (obu : Option Buf) :
    Extracts data obu ↔ obu = some (data.take obuEnd) := by
  have hiff : ∀ build, Extraction build data (.returned obu) ↔
      ExtractEnd.returned obu = .returned (some (data.take obuEnd)) :=
    fun build => ends_of_headerEnds hends hnear (List.nil_append data).symm _
  rw [ExtractEnd.returned.injEq] at hiff
  exact ⟨fun h => (hiff .checked).mp (h .checked), fun h build => (hiff build).mpr h⟩

theorem extracts_iff_of_no_header (hnone : ∀ obuEnd, ¬ HeaderEnds data.length data obuEnd)
    (hnear : NearEnds data.length data) (obu : Option Buf) : Extracts data obu ↔ obu = none := by
  have hiff : ∀ build, Extraction build data (.returned obu) ↔
      ExtractEnd.returned obu = .returned none :=
    fun build => ends_of_no_header hnone hnear (List.nil_append data).symm _
  rw [ExtractEnd.returned.injEq] at hiff
  exact ⟨fun h => (hiff .checked).mp (h .checked), fun h build => (hiff build).mpr h⟩

theorem Reaches.length_le (h : Reaches data later) : later.length ≤ data.length := by
  induction h with
  | here => exact Nat.le_refl _
  | skip hstart hother hcomplete hmore ih =>
      have hlength := length_readObuStart hstart
      rw [List.length_drop] at ih
      omega

theorem HeaderEnds.le (h : HeaderEnds data.length data obuEnd) : obuEnd ≤ data.length := by
  obtain ⟨later, header, payloadLen, rest, hreaches, hstart, -, hcomplete, rfl⟩ := h
  have hle := hreaches.length_le
  have hlength := length_readObuStart hstart
  omega

end Loop

/-! ## The stream -/

section Stream
variable {bit : ExtensionBit} {o : Obu} {obus : List Obu} {data bytes : Buf} {obu : Option Buf}

theorem obuType_headerByte (bit : ExtensionBit) (o : Obu) :
    (ObuHeader.fromByte (o.headerByte bit)).obuType = o.obuType := by
  have hbyte : ∀ isSome : Bool, ∀ obuType : UInt8, obuType < 16 →
      (ObuHeader.fromByte (obuType <<< 3 ||| (if isSome then bit.mask else 0) ||| 0x02)).obuType =
        obuType := by
    intro isSome
    cases bit <;> cases isSome <;> exact forall_byte (by decide +kernel)
  exact hbyte o.extension.isSome o.obuType o.obuType_lt

theorem FirstHeader.none_iff (h : FirstHeader bit obus data obu) :
    obu = none ↔ ∀ o ∈ obus, o.obuType ≠ ObuType.sequenceHeader := by
  induction h with
  | nil => exact iff_of_true rfl fun o ho => absurd ho List.not_mem_nil
  | found first more header =>
      exact iff_of_false (Option.some_ne_none _) fun h => h _ List.mem_cons_self header
  | later first other more ih =>
      rw [ih, List.forall_mem_cons]
      exact (and_iff_right other).symm

theorem FirstHeader.written (h : FirstHeader bit obus data (some bytes)) :
    ∃ o ∈ obus, o.obuType = ObuType.sequenceHeader ∧ o.Written bit bytes := by
  generalize hobu : some bytes = obu at h
  induction h with
  | nil => exact absurd hobu (Option.some_ne_none bytes)
  | found first more header =>
      obtain rfl := Option.some.inj hobu
      exact ⟨_, List.mem_cons_self, header, first⟩
  | later first other more ih =>
      obtain ⟨o, ho, hwritten⟩ := ih hobu
      exact ⟨o, List.mem_cons_of_mem _ ho, hwritten⟩

/-- The bytes begin with the header only if the header comes first. -/
theorem FirstHeader.headerFirst (h : FirstHeader bit obus data (some bytes)) (hbytes : bytes <+: data) :
    HeaderFirst obus := by
  obtain ⟨o', -, hheader, hwritten⟩ := h.written
  cases h with
  | found first more header => exact fun _ => ⟨_, rfl, header⟩
  | @later o _ _ rest _ first other more =>
      obtain ⟨size, -, -, rfl⟩ := first
      obtain ⟨size', -, -, rfl⟩ := hwritten
      obtain ⟨tail, htail⟩ := hbytes
      have hbyte : o'.headerByte bit = o.headerByte bit := (List.cons.inj htail).1
      have htype := congrArg (fun byte => (ObuHeader.fromByte byte).obuType) hbyte
      rw [obuType_headerByte, obuType_headerByte] at htype
      exact absurd (htype.symm.trans hheader) other

theorem FirstHeader.prefix_of_headerFirst (h : FirstHeader bit obus data (some bytes))
    (hfirst : HeaderFirst obus) : bytes <+: data := by
  obtain ⟨o', ho', hheader, -⟩ := h.written
  obtain ⟨o, ho, hfirst⟩ := hfirst ⟨o', ho', hheader⟩
  cases h with
  | found first more header => exact List.prefix_append _ _
  | later first other more =>
      obtain rfl := Option.some.inj ho
      exact absurd hfirst other

/-- Nothing is extracted, or what the extracted bytes are the beginning of. -/
theorem Extracts.cases (h : Extracts data obu) :
    obu = none ∧ (∀ obuEnd, ¬ HeaderEnds data.length data obuEnd) ∨
      ∃ obuEnd, HeaderEnds data.length data obuEnd ∧ obu = some (data.take obuEnd) := by
  by_cases hends : ∃ obuEnd, HeaderEnds data.length data obuEnd
  · obtain ⟨obuEnd, hends⟩ := hends
    exact Or.inr ⟨obuEnd, hends, (extracts_iff_of_headerEnds hends h.near obu).mp h⟩
  · exact Or.inl ⟨(extracts_iff_of_no_header (not_exists.mp hends) h.near obu).mp h,
      not_exists.mp hends⟩

theorem Extracts.readAsWritten (h : Extracts data obu) : ReadAsWritten data obu := by
  refine ⟨h.near, fun obuEnd => ?_⟩
  constructor
  · intro hends
    refine ⟨data.take obuEnd, (extracts_iff_of_headerEnds hends h.near obu).mp h, ?_⟩
    exact (List.length_take_of_le hends.le).symm
  · rintro ⟨bytes, hmem, rfl⟩
    obtain ⟨rfl, -⟩ | ⟨obuEnd, hends, rfl⟩ := h.cases
    · exact absurd hmem.symm (Option.some_ne_none bytes)
    · obtain rfl := Option.some.inj hmem
      rw [List.length_take_of_le hends.le]
      exact hends

/-- The sequence header of a stream is extracted exactly if it comes first, and is read
as it was written. -/
theorem extracts_iff (h : FirstHeader bit obus data obu) :
    Extracts data obu ↔ HeaderFirst obus ∧ ReadAsWritten data obu := by
  constructor
  · intro hextracts
    refine ⟨?_, hextracts.readAsWritten⟩
    obtain ⟨rfl, -⟩ | ⟨obuEnd, -, rfl⟩ := hextracts.cases
    · exact fun ⟨o, ho, hheader⟩ => absurd hheader (h.none_iff.mp rfl o ho)
    · exact h.headerFirst (List.take_prefix obuEnd data)
  · rintro ⟨hfirst, hnear, hends⟩
    cases obu with
    | none =>
        refine (extracts_iff_of_no_header (fun obuEnd hmet => ?_) hnear none).mpr rfl
        obtain ⟨bytes, hmem, -⟩ := (hends obuEnd).mp hmet
        exact absurd hmem.symm (Option.some_ne_none bytes)
    | some bytes =>
        have hhere := (hends bytes.length).mpr ⟨bytes, rfl, rfl⟩
        obtain ⟨rest, rfl⟩ := h.prefix_of_headerFirst hfirst
        rw [extracts_iff_of_headerEnds hhere hnear, List.take_left]

/-! ## Streams that are read as they were written -/

theorem Obu.Written.start {rest : Buf} (h : o.Written bit bytes) (hread : o.Readable bit)
    (hlength : (bytes ++ rest).length < 2 ^ 64) :
    readObuStart (bytes ++ rest) =
        some (o.entry.1, UInt64.ofNat o.payload.length, o.payload ++ rest) ∧
      (UInt64.ofNat o.payload.length).toNat = o.payload.length := by
  rw [List.length_append] at hlength
  have hpayload : o.payload.length < 2 ^ 64 :=
    Nat.lt_of_le_of_lt h.payload_le (Nat.lt_of_le_of_lt (Nat.le_add_right _ _) hlength)
  exact ⟨h.readObuStart_append hread rest, UInt64.toNat_ofNat_of_lt' hpayload⟩

/-- What is reached in a stream without a sequence header is one, too, and the OBU there is
read completely. -/
theorem FirstHeader.of_reaches {later rest : Buf} {header : ObuHeader} {payloadLen : UInt64}
    (hreaches : Reaches data later) (h : FirstHeader bit obus data none)
    (hread : ∀ o ∈ obus, o.Readable bit) (hlength : data.length < 2 ^ 64)
    (hlater : readObuStart later = some (header, payloadLen, rest)) :
    header.obuType ≠ ObuType.sequenceHeader ∧ payloadLen.toNat ≤ rest.length := by
  induction hreaches generalizing obus with
  | here =>
      cases h with
      | nil => exact absurd hlater.symm (Option.some_ne_none _)
      | @later o obus bytes more _ first other hmore =>
          obtain ⟨hstart, hsize⟩ := first.start (hread o List.mem_cons_self) hlength
          obtain ⟨rfl, heq⟩ := Prod.mk.inj (Option.some.inj (hstart.symm.trans hlater))
          obtain ⟨rfl, rfl⟩ := Prod.mk.inj heq
          rw [hsize, List.length_append]
          exact ⟨other, Nat.le_add_right _ _⟩
  | skip hstart' hother hcomplete hmore' ih =>
      cases h with
      | nil => exact absurd hstart'.symm (Option.some_ne_none _)
      | @later o obus bytes more _ first other hmore =>
          obtain ⟨hstart, hsize⟩ := first.start (hread o List.mem_cons_self) hlength
          obtain ⟨rfl, heq⟩ := Prod.mk.inj (Option.some.inj (hstart.symm.trans hstart'))
          obtain ⟨rfl, rfl⟩ := Prod.mk.inj heq
          rw [hsize, List.drop_left] at ih
          rw [List.length_append] at hlength
          exact ih hmore (fun o' ho' => hread o' (List.mem_cons_of_mem o ho'))
            (Nat.lt_of_le_of_lt (Nat.le_add_left _ _) hlength) hlater

theorem readAsWritten_of_none (h : FirstHeader bit obus data none)
    (hread : ∀ o ∈ obus, o.Readable bit) (hlength : data.length < 2 ^ 64) :
    ReadAsWritten data none := by
  refine ⟨fun later header payloadLen rest hreaches hstart => ?_, fun obuEnd => ?_⟩
  · obtain ⟨-, hcomplete⟩ := h.of_reaches hreaches hread hlength hstart
    have hle := hreaches.length_le
    have hrest := length_readObuStart hstart
    omega
  · refine iff_of_false ?_ fun ⟨bytes, hmem, _⟩ => absurd hmem.symm (Option.some_ne_none bytes)
    rintro ⟨later, header, payloadLen, rest, hreaches, hstart, hheader, -⟩
    exact (h.of_reaches hreaches hread hlength hstart).1 hheader

theorem readAsWritten_of_found {rest : Buf} (first : o.Written bit bytes)
    (header : o.obuType = ObuType.sequenceHeader) (hread : o.Readable bit)
    (hlength : (bytes ++ rest).length < 2 ^ 64) : ReadAsWritten (bytes ++ rest) (some bytes) := by
  obtain ⟨hstart, hsize⟩ := first.start hread hlength
  have hpos : (bytes ++ rest).length - (o.payload ++ rest).length +
      (UInt64.ofNat o.payload.length).toNat = bytes.length := by
    have hle := first.payload_le
    rw [hsize, List.length_append, List.length_append]
    omega
  have hhere : ∀ later, Reaches (bytes ++ rest) later → later = bytes ++ rest := by
    intro later hreaches
    cases hreaches with
    | here => rfl
    | skip hstart' hother _ _ =>
        obtain ⟨rfl, -⟩ := Prod.mk.inj (Option.some.inj (hstart.symm.trans hstart'))
        exact absurd header hother
  refine ⟨?_, fun obuEnd => ?_⟩
  · rintro later header' payloadLen rest' hreaches hstart'
    rw [hhere later hreaches] at hstart'
    obtain ⟨-, heq⟩ := Prod.mk.inj (Option.some.inj (hstart.symm.trans hstart'))
    obtain ⟨rfl, rfl⟩ := Prod.mk.inj heq
    rw [hpos]
    rw [List.length_append] at hlength
    exact Nat.lt_of_le_of_lt (Nat.le_add_right _ _) hlength
  · constructor
    · rintro ⟨later, header', payloadLen, rest', hreaches, hstart', -, -, rfl⟩
      rw [hhere later hreaches] at hstart'
      obtain ⟨-, heq⟩ := Prod.mk.inj (Option.some.inj (hstart.symm.trans hstart'))
      obtain ⟨rfl, rfl⟩ := Prod.mk.inj heq
      exact ⟨bytes, rfl, hpos⟩
    · rintro ⟨_, ⟨⟩, rfl⟩
      refine ⟨_, _, _, _, .here, hstart, header, ?_, hpos.symm⟩
      rw [hsize, List.length_append]
      exact Nat.le_add_right _ _

theorem readAsWritten_of_readable (h : FirstHeader bit obus data obu) (hfirst : HeaderFirst obus)
    (hread : ∀ o ∈ obus, o.Readable bit) (hlength : data.length < 2 ^ 64) :
    ReadAsWritten data obu := by
  cases obu with
  | none => exact readAsWritten_of_none h hread hlength
  | some bytes =>
      obtain ⟨o', ho', hheader, -⟩ := h.written
      obtain ⟨o, ho, hfirst⟩ := hfirst ⟨o', ho', hheader⟩
      cases h with
      | @found o obus bytes rest first more header =>
          exact readAsWritten_of_found first header (hread o List.mem_cons_self) hlength
      | later first other more =>
          obtain rfl := Option.some.inj ho
          exact absurd hfirst other

/-- Bytes are extracted from without an overflow exactly if what is reached ends near
enough, and the sequence header of a stream is extracted exactly if it comes first and is
read as it was written, as all is where no extension byte is announced by the third bit. -/
theorem extraction_spec (data : Buf) (hlength : data.length < 2 ^ 64) :
    (SafelyExtracted data ↔ NearEnds data.length data) ∧
      ∀ bit obus obu, FirstHeader bit obus data obu →
        (Extracts data obu ↔ HeaderFirst obus ∧ ReadAsWritten data obu) ∧
          ((∀ o ∈ obus, o.Readable bit) → (Extracts data obu ↔ HeaderFirst obus)) := by
  refine ⟨safelyExtracted_iff data, fun bit obus obu h => ⟨extracts_iff h, fun hread => ?_⟩⟩
  rw [extracts_iff h]
  exact and_iff_left_of_imp fun hfirst => readAsWritten_of_readable h hfirst hread hlength

def sequenceObu : Obu := ⟨1, none, [0xAA], by decide⟩

def temporalDelimiter : Obu := ⟨2, none, [], by decide⟩

theorem written_sequenceObu : sequenceObu.Written .last [0x0A, 1, 0xAA] :=
  ⟨[1], .last (b := 1) (by decide), by decide, rfl⟩

theorem extraction_sequenceFirst :
    Extracts [0x0A, 1, 0xAA, 0x32, 2, 1, 2] (some [0x0A, 1, 0xAA]) := by
  have hframe : frameObu.Written .last [0x32, 2, 1, 2] :=
    ⟨[2], .last (b := 2) (by decide), by decide, rfl⟩
  have hstream : FirstHeader .last [sequenceObu, frameObu] [0x0A, 1, 0xAA, 0x32, 2, 1, 2]
      (some [0x0A, 1, 0xAA]) := .found written_sequenceObu (.cons hframe .nil) rfl
  have hspec := (extraction_spec [0x0A, 1, 0xAA, 0x32, 2, 1, 2] (by decide)).2 _ _ _ hstream
  exact (hspec.2 fun _ _ => Or.inl rfl).mpr fun _ => ⟨sequenceObu, rfl, rfl⟩

/-- An OBU of 11 bytes before its payload, which it says has 2^64 - 11. -/
def wrapsBack : Buf := [0x12, 0xF5, 0xFF, 0xFF, 0xFF, 0xFF, 0xFF, 0xFF, 0xFF, 0xFF, 0x01]

/-- After a temporal delimiter the sequence header is not what is extracted, and the sum of
a position and a size takes the loop back to its start for ever. -/
theorem extraction_fails :
    (FirstHeader .last [temporalDelimiter, sequenceObu] [0x12, 0, 0x0A, 1, 0xAA]
        (some [0x0A, 1, 0xAA]) ∧
      ¬ Extracts [0x12, 0, 0x0A, 1, 0xAA] (some [0x0A, 1, 0xAA])) ∧
    Extraction .checked wrapsBack .panicked ∧ ¬ ∃ result, Extraction .wrapping wrapsBack result := by
  have htemporal : temporalDelimiter.Written .last [0x12, 0] :=
    ⟨[0], .last (b := 0) (by decide), by decide, rfl⟩
  have hstream : FirstHeader .last [temporalDelimiter, sequenceObu] [0x12, 0, 0x0A, 1, 0xAA]
      (some [0x0A, 1, 0xAA]) :=
    .later htemporal (by decide) (.found written_sequenceObu .nil rfl)
  have hbody : ∀ i, i = 0 → ∃ j, extractBody .wrapping wrapsBack i = .inl j ∧ j = 0 := by
    rintro i rfl
    exact ⟨0, by decide +kernel, rfl⟩
  refine ⟨⟨hstream, fun h => ?_⟩, (ends_of_break (by decide +kernel)).mpr rfl, ?_⟩
  · obtain ⟨o, ho, hheader⟩ := ((extracts_iff hstream).mp h).1
      ⟨sequenceObu, List.mem_cons_of_mem _ List.mem_cons_self, rfl⟩
    obtain rfl := Option.some.inj ho
    exact absurd hheader (by decide)
  · rintro ⟨result, n, hn⟩
    have hforever := loop_forever hbody rfl n
    exact absurd (hforever.symm.trans hn) (Option.some_ne_none result).symm

end Stream

end Wzp.Video
