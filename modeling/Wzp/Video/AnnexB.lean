import Wzp.Video.H264

/-!
# NAL units with lengths and with start codes

The codecs of the platforms have each NAL unit after its length, and what is sent has
it after a start code. Two converters go one way, and one of them guesses from the
first bytes whether there is anything to convert.
-/
namespace Wzp.Video
open Bytes

/-! ## Converting -/

theorem length_afterNal_lt {data : Buf} (h : ¬ data.length < 4) (nalLen : ℕ) :
    ((data.drop 4).drop nalLen).length < data.length := by
  rw [List.length_drop, List.length_drop]
  omega

/-- The loop over NAL units after their lengths, with what is returned if one is longer
than what there is. -/
def avccLoop (overrun : Buf → Bool → Buf) (out : Buf) (sawNal : Bool) (data : Buf) : Buf :=
  if hshort : data.length < 4 then out
  else
    let nalLen := (getU32 data).1.toNat
    let rest := data.drop 4
    if rest.length < nalLen then overrun out sawNal
    else
      have := length_afterNal_lt hshort nalLen
      avccLoop overrun (out ++ 0 :: startCode ++ rest.take nalLen) true (rest.drop nalLen)
termination_by data.length

namespace VideoToolbox

def avccToAnnexb (data : Buf) : Buf := avccLoop (fun out _ => out) [] false data

end VideoToolbox

namespace MediaCodec

def startsWithAnnexBStartCode (data : Buf) : Bool :=
  startCode.isPrefixOf data || (0 :: startCode).isPrefixOf data

def avccToAnnexb (data : Buf) : Buf :=
  if startsWithAnnexBStartCode data then data
  else avccLoop (fun out sawNal => if sawNal then out else data) [] false data

end MediaCodec

/-- The length of the start code that the bytes begin with, or none. -/
def startCodeLen (data : Buf) : ℕ :=
  if startCode.isPrefixOf data then 3
  else if (0 :: startCode).isPrefixOf data then 4
  else 0

/-- The bytes up to the next start code, and the rest. -/
def scanNal : Buf → Buf × Buf
  | [] => ([], [])
  | byte :: rest =>
      if startCodeLen (byte :: rest) = 0 then (byte :: (scanNal rest).1, (scanNal rest).2)
      else ([], byte :: rest)

theorem length_scanNal_le (data : Buf) : (scanNal data).2.length ≤ data.length := by
  induction data with
  | nil => exact Nat.le_refl 0
  | cons byte rest ih =>
      rw [scanNal]
      split
      · exact Nat.le_succ_of_le ih
      · exact Nat.le_refl _

theorem length_afterScan_lt {byte : UInt8} {rest : Buf} (h : ¬ startCodeLen (byte :: rest) = 0) :
    (scanNal ((byte :: rest).drop (startCodeLen (byte :: rest)))).2.length < rest.length + 1 := by
  have hle := length_scanNal_le ((byte :: rest).drop (startCodeLen (byte :: rest)))
  rw [List.length_drop, List.length_cons] at hle
  omega

/-- The scanner that both codecs have. -/
def splitAnnexB : Buf → List Buf
  | [] => []
  | byte :: rest =>
      if hnone : startCodeLen (byte :: rest) = 0 then splitAnnexB rest
      else
        have := length_afterScan_lt hnone
        let scanned := scanNal ((byte :: rest).drop (startCodeLen (byte :: rest)))
        scanned.1 :: splitAnnexB scanned.2
termination_by data => data.length

def annexbToAvcc (annexB : Buf) : Buf :=
  (splitAnnexB annexB).flatMap fun nal => putU32 (UInt32.ofNat nal.length) ++ nal

/-! ## NAL units in both formats -/

/-- A NAL unit of any codec that both formats can have. -/
structure Nal where
  bytes : Buf
  plain : PlainNal bytes
  length_lt : bytes.length < 2 ^ 32

namespace Nal

/-- The NAL units, each after its length. -/
def avcc (nals : List Nal) : Buf :=
  nals.flatMap fun nal => putU32 (UInt32.ofNat nal.bytes.length) ++ nal.bytes

/-- The NAL units, each after a start code of four bytes if so marked, or else of three. -/
def annexB (units : List (Nal × Bool)) : Buf := startCoded (units.map fun u => (u.1.bytes, u.2))

/-- The conversions and the scanners preserve the NAL units. -/
structure Preserved (nals : List Nal) : Prop where
  videoToolbox : VideoToolbox.avccToAnnexb (avcc nals) = annexB (nals.map (·, true))
  mediaCodec : MediaCodec.avccToAnnexb (avcc nals) = annexB (nals.map (·, true))
  scanned : ∀ units, units.map Prod.fst = nals → splitAnnexB (annexB units) = nals.map bytes
  framed : ∀ units, units.map Prod.fst = nals → splitNals (annexB units) = nals.map bytes
  back : ∀ units, units.map Prod.fst = nals → annexbToAvcc (annexB units) = avcc nals

/-- The length of the first NAL unit does not look like a start code, or every length is
one. -/
def NotMistaken (nals : List Nal) : Prop :=
  (∀ nal ∈ nals.head?, nal.bytes.length ≠ 1 ∧ ¬ (256 ≤ nal.bytes.length ∧ nal.bytes.length < 512)) ∨
    ∀ nal ∈ nals, nal.bytes.length = 1

variable {nal : Nal} {nals : List Nal} {units : List (Nal × Bool)}

/-! ## Scanning -/

theorem startCodeLen_startCode (long : Bool) (rest : Buf) :
    startCodeLen ((if long then 0 :: startCode else startCode) ++ rest) =
      (if long then 0 :: startCode else startCode).length := by
  cases long <;> rfl

theorem startCodeLen_eq_zero {data : Buf} (h : ∀ c, c = 0 ∨ c = 1 → ¬ [0, 0, c] <+: data) :
    startCodeLen data = 0 := by
  have hthree : ¬ startCode.isPrefixOf data = true := fun hprefix =>
    h 1 (Or.inr rfl) (List.isPrefixOf_iff_prefix.mp hprefix)
  have hfour : ¬ (0 :: startCode).isPrefixOf data = true := fun hprefix =>
    h 0 (Or.inl rfl) ((List.prefix_append [0, 0, 0] [1]).trans (List.isPrefixOf_iff_prefix.mp hprefix))
  rw [startCodeLen, if_neg hthree, if_neg hfour]

theorem scanNal_unitEnd {rest : Buf} (h : UnitEnd rest) : scanNal rest = ([], rest) := by
  cases h with
  | nil => rfl
  | three header rest => rfl
  | four header rest => rfl

theorem scanNal_cons (a : UInt8) (tail : Buf)
    (h : ∀ c, c = 0 ∨ c = 1 → ¬ [0, 0, c] <+: a :: tail) :
    scanNal (a :: tail) = (a :: (scanNal tail).1, (scanNal tail).2) := by
  rw [scanNal, if_pos (startCodeLen_eq_zero h)]

theorem splitAnnexB_startCode (long : Bool) (rest : Buf) :
    splitAnnexB ((if long then 0 :: startCode else startCode) ++ rest) =
      (scanNal rest).1 :: splitAnnexB (scanNal rest).2 := by
  have hlen := startCodeLen_startCode long rest
  cases long with
  | false =>
      change startCodeLen (0 :: 0 :: 1 :: rest) = 3 at hlen
      change splitAnnexB (0 :: 0 :: 1 :: rest) = _
      rw [splitAnnexB, dif_neg (by rw [hlen]; decide)]
      rfl
  | true =>
      change startCodeLen (0 :: 0 :: 0 :: 1 :: rest) = 4 at hlen
      change splitAnnexB (0 :: 0 :: 0 :: 1 :: rest) = _
      rw [splitAnnexB, dif_neg (by rw [hlen]; decide)]
      rfl

theorem plain_annexB (units : List (Nal × Bool)) :
    ∀ nal ∈ units.map fun u => (u.1.bytes, u.2), PlainNal nal.1 := by
  intro nal hnal
  obtain ⟨u, -, rfl⟩ := List.mem_map.mp hnal
  exact u.1.plain

theorem splitAnnexB_annexB (units : List (Nal × Bool)) :
    splitAnnexB (annexB units) = units.map fun u => u.1.bytes := by
  induction units with
  | nil =>
      rw [annexB, splitAnnexB.eq_def]
      rfl
  | cons u units ih =>
      obtain ⟨nal, long⟩ := u
      have hcons : annexB ((nal, long) :: units) =
          (if long then 0 :: startCode else startCode) ++ (nal.bytes ++ annexB units) :=
        List.append_assoc _ _ _
      have hscan : scanNal (nal.bytes ++ annexB units) = (nal.bytes, annexB units) :=
        scan_append (fun _ => scanNal_unitEnd) scanNal_cons
          (unitEnd_startCoded (plain_annexB units)) nal.plain.noStartCode fun _ => nal.plain.last
      rw [hcons, splitAnnexB_startCode, hscan, ih]
      rfl

/-! ## Converting NAL units -/

theorem annexB_cons (nal : Nal) (nals : List Nal) : annexB ((nal :: nals).map (·, true)) =
    0 :: startCode ++ (nal.bytes ++ annexB (nals.map (·, true))) := List.append_assoc _ _ _

theorem avcc_cons (nal : Nal) (nals : List Nal) : avcc (nal :: nals) =
    putU32 (UInt32.ofNat nal.bytes.length) ++ (nal.bytes ++ avcc nals) := List.append_assoc _ _ _

theorem toNat_length (nal : Nal) : (UInt32.ofNat nal.bytes.length).toNat = nal.bytes.length :=
  UInt32.toNat_ofNat_of_lt' nal.length_lt

theorem avccLoop_cons (overrun : Buf → Bool → Buf) (out : Buf) (sawNal : Bool) (nal : Nal)
    (rest : Buf) :
    avccLoop overrun out sawNal (putU32 (UInt32.ofNat nal.bytes.length) ++ (nal.bytes ++ rest)) =
      avccLoop overrun (out ++ 0 :: startCode ++ nal.bytes) true rest := by
  have hfour : ¬ (putU32 (UInt32.ofNat nal.bytes.length) ++ (nal.bytes ++ rest)).length < 4 :=
    Nat.not_lt.mpr (Nat.le_add_left 4 _)
  have hdrop : (putU32 (UInt32.ofNat nal.bytes.length) ++ (nal.bytes ++ rest)).drop 4 =
      nal.bytes ++ rest := rfl
  have hfits : ¬ (nal.bytes ++ rest).length < nal.bytes.length := by
    rw [List.length_append]
    exact Nat.not_lt.mpr (Nat.le_add_right _ _)
  rw [avccLoop, dif_neg hfour]
  dsimp only
  rw [getU32_put, hdrop, toNat_length, if_neg hfits, List.take_left, List.drop_left]

/-- Whatever is returned on an overrun, there is none. -/
theorem avccLoop_avcc (overrun : Buf → Bool → Buf) (out : Buf) (sawNal : Bool) (nals : List Nal) :
    avccLoop overrun out sawNal (avcc nals) = out ++ annexB (nals.map (·, true)) := by
  induction nals generalizing out sawNal with
  | nil =>
      rw [avccLoop, dif_pos (by decide)]
      exact (List.append_nil out).symm
  | cons nal nals ih =>
      rw [avcc_cons, avccLoop_cons, ih, annexB_cons]
      simp only [List.append_assoc]

theorem annexbToAvcc_annexB (units : List (Nal × Bool)) :
    annexbToAvcc (annexB units) = avcc (units.map Prod.fst) := by
  rw [annexbToAvcc, splitAnnexB_annexB, avcc, List.flatMap_map, List.flatMap_map]

/-! ## Guessing -/

theorem startsWith_iff (a b c d : UInt8) (rest : Buf) :
    MediaCodec.startsWithAnnexBStartCode (a :: b :: c :: d :: rest) = true ↔
      a = 0 ∧ b = 0 ∧ (c = 1 ∨ c = 0 ∧ d = 1) := by
  rw [MediaCodec.startsWithAnnexBStartCode, Bool.or_eq_true, List.isPrefixOf_iff_prefix,
    List.isPrefixOf_iff_prefix, startCode]
  simp only [List.cons_prefix_cons, List.nil_prefix, and_true, eq_comm (a := (0 : UInt8)),
    eq_comm (a := (1 : UInt8))]
  tauto

theorem digit_eq_iff (n k : ℕ) (d : UInt8) : digit n k = d ↔ n / 256 ^ k % 256 = d.toNat := by
  rw [← UInt8.toNat_inj, toNat_digit]

/-- A length looks like a start code of four bytes if it is one, and of three if it is of
two bytes with a one before the last. -/
theorem startsWith_avcc (nal : Nal) (nals : List Nal) :
    MediaCodec.startsWithAnnexBStartCode (avcc (nal :: nals)) = true ↔
      nal.bytes.length = 1 ∨ 256 ≤ nal.bytes.length ∧ nal.bytes.length < 512 := by
  have hlt := nal.length_lt
  rw [avcc_cons, putU32, toNat_length, List.cons_append, List.cons_append, List.cons_append,
    List.cons_append, startsWith_iff]
  simp only [digit_eq_iff, UInt8.toNat_zero, UInt8.toNat_one]
  omega

/-- A length of one is the start code. -/
theorem putU32_eq_startCode (nal : Nal) :
    putU32 (UInt32.ofNat nal.bytes.length) = 0 :: startCode ↔ nal.bytes.length = 1 := by
  have hlt := nal.length_lt
  rw [putU32, toNat_length, startCode]
  simp only [List.cons.injEq, and_true, digit_eq_iff, UInt8.toNat_zero, UInt8.toNat_one]
  omega

theorem avcc_eq_annexB_iff (nals : List Nal) :
    avcc nals = annexB (nals.map (·, true)) ↔ ∀ nal ∈ nals, nal.bytes.length = 1 := by
  induction nals with
  | nil => exact iff_of_true rfl fun nal hnal => absurd hnal List.not_mem_nil
  | cons nal nals ih =>
      rw [avcc_cons, annexB_cons, List.forall_mem_cons, ← ih, ← putU32_eq_startCode]
      constructor
      · intro h
        obtain ⟨hlen, hrest⟩ := List.append_inj h rfl
        exact ⟨hlen, List.append_cancel_left hrest⟩
      · rintro ⟨hlen, hrest⟩
        rw [hlen, hrest]

theorem mediaCodec_iff (nals : List Nal) :
    MediaCodec.avccToAnnexb (avcc nals) = annexB (nals.map (·, true)) ↔ NotMistaken nals := by
  have hmistaken : MediaCodec.startsWithAnnexBStartCode (avcc nals) = true ↔
      ¬ ∀ nal ∈ nals.head?, nal.bytes.length ≠ 1 ∧
        ¬ (256 ≤ nal.bytes.length ∧ nal.bytes.length < 512) := by
    cases nals with
    | nil => exact iff_of_false Bool.false_ne_true fun h => h fun nal hnal => nomatch hnal
    | cons nal nals =>
        have hhead : ∀ P : Nal → Prop, (∀ nal' ∈ (nal :: nals).head?, P nal') ↔ P nal := fun P =>
          ⟨fun h => h nal rfl, fun h nal' hnal' => Option.some.inj hnal' ▸ h⟩
        rw [startsWith_avcc, hhead]
        omega
  rw [MediaCodec.avccToAnnexb, NotMistaken]
  by_cases hstarts : MediaCodec.startsWithAnnexBStartCode (avcc nals) = true
  · rw [if_pos hstarts, avcc_eq_annexB_iff]
    exact (or_iff_right (hmistaken.mp hstarts)).symm
  · rw [if_neg hstarts, avccLoop_avcc]
    exact iff_of_true rfl (Or.inl (not_not.mp (mt hmistaken.mpr hstarts)))

/-- The conversions preserve the NAL units exactly if the first length is not mistaken for
a start code, or is one like all others. -/
theorem preserved_iff (nals : List Nal) : Preserved nals ↔ NotMistaken nals := by
  refine ⟨fun h => (mediaCodec_iff nals).mp h.mediaCodec, fun h => ?_⟩
  refine ⟨avccLoop_avcc _ [] false nals, (mediaCodec_iff nals).mpr h, ?_, ?_, ?_⟩
  · rintro units rfl
    rw [splitAnnexB_annexB, List.map_map]
    rfl
  · rintro units rfl
    rw [annexB, splitNals_startCoded (plain_annexB units), List.map_map, List.map_map]
    rfl
  · rintro units rfl
    exact annexbToAvcc_annexB units

/-- A slice of so many bytes, none of which is zero. -/
def slice (length : ℕ) (hpos : 0 < length) (hlt : length < 2 ^ 32) : Nal where
  bytes := List.replicate length 0x41
  plain := by
    have hfree : ∀ c, ¬ [0, 0, c] <:+: List.replicate length (0x41 : UInt8) := by
      intro c h
      exact absurd (List.eq_of_mem_replicate (h.subset List.mem_cons_self)) (by decide)
    refine ⟨List.ne_nil_of_length_pos (by rwa [List.length_replicate]), ⟨hfree 0, hfree 1⟩, ?_⟩
    rw [List.getLast_replicate]
    decide
  length_lt := by rwa [List.length_replicate]

/-- A length of 256 is taken for a start code of three bytes, and one of 1 for one of four. -/
theorem lengths_mistaken : ¬ Preserved [slice 256 (by decide) (by decide)] ∧
    ¬ Preserved [slice 1 (by decide) (by decide), slice 2 (by decide) (by decide)] := by
  have hlength : ∀ {n : ℕ} (hpos : 0 < n) (hlt : n < 2 ^ 32), (slice n hpos hlt).bytes.length = n :=
    fun _ _ => List.length_replicate
  constructor
  · intro h
    obtain hfirst | hall := (mediaCodec_iff _).mp h.mediaCodec
    · exact (hfirst _ rfl).2 (by rw [hlength]; decide)
    · exact absurd (hall _ List.mem_cons_self) (by rw [hlength]; decide)
  · intro h
    obtain hfirst | hall := (mediaCodec_iff _).mp h.mediaCodec
    · exact (hfirst _ rfl).1 (hlength _ _)
    · exact absurd (hall _ (List.mem_cons_of_mem _ List.mem_cons_self)) (by rw [hlength]; decide)

end Nal
end Wzp.Video
