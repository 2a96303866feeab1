import Wzp.Lib.Grids
import Wzp.Video.FrameLayout

/-!
# Converting frames there and back

Where the copies of each conversion read and write. Padding and then making tight gives the
frame back. Making tight checks the padded planes and copies the visible rows, which may
reach beyond them.
-/
namespace Wzp.Video.MediaCodec
open Bytes Copy

/-! ## Sizes -/

theorem checkedMul_eq_some {a b c : ℕ} : checkedMul a b = some c ↔ a * b < 2 ^ 64 ∧ a * b = c := by
  rw [checkedMul, Option.ite_none_right_eq_some, Option.some.injEq]

theorem checkedAdd_eq_some {a b c : ℕ} : checkedAdd a b = some c ↔ a + b < 2 ^ 64 ∧ a + b = c := by
  rw [checkedAdd, Option.ite_none_right_eq_some, Option.some.injEq]

/-- Two chroma planes are at most half of the luma plane. -/
theorem chroma_le (width height : ℕ) : width / 2 * (height / 2) * 4 ≤ width * height := by
  calc width / 2 * (height / 2) * 4 = width / 2 * 2 * (height / 2 * 2) := by ring
    _ ≤ width * height := Nat.mul_le_mul (Nat.div_mul_le_self _ 2) (Nat.div_mul_le_self _ 2)

/-- The last of the rows ends within a buffer. -/
def RowsFit (len rows start stride width : ℕ) : Prop :=
  rows = 0 ∨ start + (rows - 1) * stride + width ≤ len

theorem rowsFit_iff {len rows start stride width : ℕ} :
    RowsFit len rows start stride width ↔ ∀ row < rows, start + row * stride + width ≤ len := by
  constructor
  · rintro (hnone | hlast) row hrow
    · omega
    · have hle : row * stride ≤ (rows - 1) * stride := Nat.mul_le_mul_right stride (by omega)
      omega
  · intro h
    rcases Nat.eq_zero_or_pos rows with hnone | hpos
    · exact Or.inl hnone
    · exact Or.inr (h (rows - 1) (by omega))

instance (len rows start stride width : ℕ) : Decidable (RowsFit len rows start stride width) :=
  inferInstanceAs (Decidable (_ ∨ _))

/-- Rows fit, if the plane does. -/
theorem rowsFit_of_le {len rows start stride width : ℕ} (hwidth : width ≤ stride)
    (h : start + rows * stride ≤ len) : RowsFit len rows start stride width :=
  rowsFit_iff.mpr fun row hrow => by
    have hend := Grid.row_end hrow stride
    omega

theorem blank_length {ySize total : ℕ} (h : ySize ≤ total) : (blank ySize total).length = total := by
  rw [blank, List.length_append, List.length_replicate, List.length_replicate]
  omega

/-! ## The copies of the loops -/
section
variable {P : Copy UInt8 → Prop} {source u v : Buf} {rows cols len start sourceStride dst dstStride
  srcU srcV dstU dstV uvPlane uvStride : ℕ}

theorem forall_copyRows :
    (∀ c ∈ copyRows source rows len start sourceStride dst dstStride, P c) ↔
      ∀ row < rows, P ⟨source, start + row * sourceStride, dst + row * dstStride, len⟩ := by
  simp only [copyRows, List.forall_mem_map, List.mem_range]

theorem forall_copyPlanes :
    (∀ c ∈ copyPlanes source rows len srcU srcV sourceStride dstU dstV dstStride, P c) ↔
      (∀ c ∈ copyRows source rows len srcU sourceStride dstU dstStride, P c) ∧
        ∀ c ∈ copyRows source rows len srcV sourceStride dstV dstStride, P c := by
  simp only [copyPlanes, copyRows, List.forall_mem_flatMap, List.forall_mem_map, List.mem_range,
    List.forall_mem_cons, List.not_mem_nil, false_implies, implies_true, and_true, forall_and]

theorem forall_interleave :
    (∀ c ∈ interleave u v rows cols uvPlane uvStride, P c) ↔
      ∀ row < rows, ∀ col < cols,
        P ⟨u, row * cols + col, uvPlane + row * uvStride + col * 2, 1⟩ ∧
          P ⟨v, row * cols + col, uvPlane + row * uvStride + col * 2 + 1, 1⟩ := by
  simp only [interleave, List.forall_mem_flatMap, List.mem_range, List.forall_mem_cons,
    List.not_mem_nil, false_implies, implies_true, and_true]

theorem forall_deinterleave :
    (∀ c ∈ deinterleave source rows cols uvPlane uvStride dstU dstV, P c) ↔
      ∀ row < rows, ∀ col < cols,
        P ⟨source, uvPlane + row * uvStride + col * 2, dstU + row * cols + col, 1⟩ ∧
          P ⟨source, uvPlane + row * uvStride + col * 2 + 1, dstV + row * cols + col, 1⟩ := by
  simp only [deinterleave, List.forall_mem_flatMap, List.mem_range, List.forall_mem_cons,
    List.not_mem_nil, false_implies, implies_true, and_true]

theorem copyRows_inRange {n : ℕ} :
    (∀ c ∈ copyRows source rows len start sourceStride dst dstStride, c.InRange n) ↔
      RowsFit source.length rows start sourceStride len ∧ RowsFit n rows dst dstStride len := by
  rw [forall_copyRows, rowsFit_iff, rowsFit_iff, ← forall₂_and]
  rfl

end
/-! ## The cells of the loops -/
section
variable (source u v : Buf) (rows cols start sourceStride dst dstStride srcU srcV dstU dstV : ℕ)

/-- A plane of cells in rows, of which each is read and written as a whole. -/
def plane : Grid UInt8 where
  source
  rows
  cols
  read row col := start + row * sourceStride + col
  write row col := dst + row * dstStride + col

/-- Every second cell of the rows of a plane is written. -/
def spread (shift : ℕ) : Grid UInt8 where
  source
  rows
  cols
  read row col := row * cols + col
  write row col := dst + row * dstStride + col * 2 + shift

/-- Every second cell of the rows of a plane is read. -/
def gathered (shift : ℕ) : Grid UInt8 where
  source
  rows
  cols
  read row col := start + row * sourceStride + col * 2 + shift
  write row col := dst + row * cols + col

theorem copyRows_drawn :
    Grid.Drawn [plane source rows cols start sourceStride dst dstStride]
      (copyRows source rows cols start sourceStride dst dstStride) where
  cells c hc i hcovers := by
    obtain ⟨row, hrow, rfl⟩ := List.mem_map.mp hc
    obtain ⟨col, hcol, rfl⟩ := covers_iff.mp hcovers
    exact ⟨_, List.mem_singleton_self _, row, List.mem_range.mp hrow, col, hcol, rfl,
      value_add _ _ _ _ _⟩
  covered g hg row hrow col hcol := by
    obtain rfl := List.mem_singleton.mp hg
    exact ⟨_, List.mem_map.mpr ⟨row, List.mem_range.mpr hrow, rfl⟩, covers_iff.mpr ⟨col, hcol, rfl⟩⟩

theorem copyPlanes_drawn :
    Grid.Drawn [plane source rows cols srcU sourceStride dstU dstStride,
        plane source rows cols srcV sourceStride dstV dstStride]
      (copyPlanes source rows cols srcU srcV sourceStride dstU dstV dstStride) := by
  have hboth := (copyRows_drawn source rows cols srcU sourceStride dstU dstStride).append
    (copyRows_drawn source rows cols srcV sourceStride dstV dstStride)
  have hmem : ∀ c, c ∈ copyRows source rows cols srcU sourceStride dstU dstStride ++
        copyRows source rows cols srcV sourceStride dstV dstStride →
      c ∈ copyPlanes source rows cols srcU srcV sourceStride dstU dstV dstStride :=
    List.forall_mem_append.mpr (forall_copyPlanes.mp fun _ hc => hc)
  constructor
  · exact forall_copyPlanes.mpr (List.forall_mem_append.mp hboth.cells)
  · intro g hg row hrow col hcol
    obtain ⟨c, hc, hcovers⟩ := hboth.covered g hg row hrow col hcol
    exact ⟨c, hmem c hc, hcovers⟩

theorem interleave_drawn :
    Grid.Drawn [spread u rows cols dst dstStride 0, spread v rows cols dst dstStride 1]
      (interleave u v rows cols dst dstStride) :=
  Grid.drawn_pairs rfl rfl

theorem deinterleave_drawn :
    Grid.Drawn [gathered source rows cols start sourceStride dstU 0,
        gathered source rows cols start sourceStride dstV 1]
      (deinterleave source rows cols start sourceStride dstU dstV) :=
  Grid.drawn_pairs rfl rfl

theorem plane_strided (h : cols ≤ dstStride) :
    (plane source rows cols start sourceStride dst dstStride).Strided dst dstStride 1 0 :=
  ⟨fun _ col => congrArg _ (Nat.mul_one col).symm, Nat.one_pos, (Nat.mul_one cols).trans_le h⟩

theorem spread_strided {shift : ℕ} (hshift : shift < 2) (h : cols * 2 ≤ dstStride) :
    (spread source rows cols dst dstStride shift).Strided dst dstStride 2 shift :=
  ⟨fun _ _ => Nat.add_assoc _ _ _, hshift, h⟩

theorem gathered_strided (shift : ℕ) :
    (gathered source rows cols start sourceStride dst shift).Strided dst cols 1 0 :=
  ⟨fun _ col => congrArg _ (Nat.mul_one col).symm, Nat.one_pos, (Nat.mul_one cols).le⟩

end
/-! ## What the loops write -/
section
variable {luma source u v out out' : Buf} {rows len start sourceStride dst dstStride chromaRows cols
  srcU srcV planeStride dstU dstV dstPlaneStride : ℕ}

theorem planes_shown (h : allInto out (copyRows luma rows len start sourceStride dst dstStride ++
      copyPlanes source chromaRows cols srcU srcV planeStride dstU dstV dstPlaneStride) = some out')
    (hlen : len ≤ dstStride) (hcols : cols ≤ dstPlaneStride)
    (hrows : dst + rows * dstStride ≤ dstU) (hplane : dstU + chromaRows * dstPlaneStride ≤ dstV) :
    (plane luma rows len start sourceStride dst dstStride).Shown out' ∧
      (plane source chromaRows cols srcU planeStride dstU dstPlaneStride).Shown out' ∧
      (plane source chromaRows cols srcV planeStride dstV dstPlaneStride).Shown out' := by
  have hu := plane_strided source chromaRows cols srcU planeStride dstU dstPlaneStride hcols
  have hv := plane_strided source chromaRows cols srcV planeStride dstV dstPlaneStride hcols
  exact ((copyRows_drawn ..).append (copyPlanes_drawn ..)).shown_three h
    (plane_strided luma rows len start sourceStride dst dstStride hlen) hu hv hrows
    (hrows.trans (Nat.le_of_add_right_le hplane)) (hu.agree_before hv hplane)

theorem interleave_shown (h : allInto out (copyRows luma rows len start sourceStride dst dstStride ++
      interleave u v chromaRows cols dstU dstPlaneStride) = some out')
    (hlen : len ≤ dstStride) (hcols : cols * 2 ≤ dstPlaneStride)
    (hrows : dst + rows * dstStride ≤ dstU) :
    (plane luma rows len start sourceStride dst dstStride).Shown out' ∧
      (spread u chromaRows cols dstU dstPlaneStride 0).Shown out' ∧
      (spread v chromaRows cols dstU dstPlaneStride 1).Shown out' := by
  have hu := spread_strided u chromaRows cols dstU dstPlaneStride Nat.two_pos hcols
  have hv := spread_strided v chromaRows cols dstU dstPlaneStride Nat.one_lt_two hcols
  exact ((copyRows_drawn ..).append (interleave_drawn ..)).shown_three h
    (plane_strided luma rows len start sourceStride dst dstStride hlen) hu hv hrows hrows
    (hu.agree_shift hv (by decide))

theorem deinterleave_shown (h : allInto out (copyRows luma rows len start sourceStride dst dstStride ++
      deinterleave source chromaRows cols srcU planeStride dstU dstV) = some out')
    (hlen : len ≤ dstStride) (hrows : dst + rows * dstStride ≤ dstU)
    (hplane : dstU + chromaRows * cols ≤ dstV) :
    (plane luma rows len start sourceStride dst dstStride).Shown out' ∧
      (gathered source chromaRows cols srcU planeStride dstU 0).Shown out' ∧
      (gathered source chromaRows cols srcU planeStride dstV 1).Shown out' := by
  have hu := gathered_strided source chromaRows cols srcU planeStride dstU 0
  have hv := gathered_strided source chromaRows cols srcU planeStride dstV 1
  exact ((copyRows_drawn ..).append (deinterleave_drawn ..)).shown_three h
    (plane_strided luma rows len start sourceStride dst dstStride hlen) hu hv hrows
    (hrows.trans (Nat.le_of_add_right_le hplane)) (hu.agree_before hv hplane)

/-- A plane that is copied there and back. -/
theorem plane_shown_trans {src : Buf} {start' stride' : ℕ}
    (hback : (plane out rows cols start sourceStride dst dstStride).Shown out')
    (hthere : (plane src rows cols start' stride' start sourceStride).Shown out) :
    (plane src rows cols start' stride' dst dstStride).Shown out' :=
  fun row hrow col hcol => (hback row hrow col hcol).trans (hthere row hrow col hcol)

/-- A range that is interleaved and gathered again. -/
theorem gathered_shown_trans {src : Buf} {shift size : ℕ}
    (hback : (gathered out rows cols start sourceStride dst shift).Shown out')
    (hthere : (spread u rows cols start sourceStride shift).Shown out)
    (hu : range src srcU size = some u) (hsize : rows * cols ≤ size) :
    (plane src rows cols srcU cols dst cols).Shown out' := by
  intro row hrow col hcol
  have hcell : row * cols + col < rows * cols := Grid.cell_end hrow hcol (Nat.le_refl cols)
  calc out'[dst + row * cols + col]?
      = out[start + row * sourceStride + col * 2 + shift]? := hback row hrow col hcol
    _ = u[row * cols + col]? := hthere row hrow col hcol
    _ = src[srcU + (row * cols + col)]? := range_getElem? hu (hcell.trans_le hsize)
    _ = src[srcU + row * cols + col]? := by rw [Nat.add_assoc]

end
/-! ## Padded frames -/
section
variable {src : Buf} {width height stride sliceHeight : ℕ}

/-- The copies of `i420ToPaddedNv12` are in range. -/
theorem exists_paddedNv12 (hlen : width * height + width * height / 4 * 2 ≤ src.length)
    (hstride : width ≤ stride) (hslice : height ≤ sliceHeight) :
    ∃ u v padded, range src (width * height) (width * height / 4) = some u ∧
      range src (width * height + width * height / 4) (width * height / 4) = some v ∧
      allInto (blank (stride * sliceHeight)
          (stride * sliceHeight + stride * max (sliceHeight / 2) (height / 2)))
        (copyRows src height width 0 width 0 stride ++
          interleave u v (height / 2) (width / 2) (stride * sliceHeight) stride) = some padded := by
  obtain ⟨u, hu⟩ : ∃ u, range src (width * height) (width * height / 4) = some u :=
    exists_range (by omega)
  obtain ⟨v, hv⟩ : ∃ v,
      range src (width * height + width * height / 4) (width * height / 4) = some v :=
    exists_range (by omega)
  have hrows : height * stride ≤ stride * sliceHeight := by
    rw [Nat.mul_comm]
    exact Nat.mul_le_mul_left stride hslice
  have hchroma := chroma_le width height
  refine ⟨u, v, ?_⟩
  have hin : (allInto (blank (stride * sliceHeight)
      (stride * sliceHeight + stride * max (sliceHeight / 2) (height / 2)))
    (copyRows src height width 0 width 0 stride ++
      interleave u v (height / 2) (width / 2) (stride * sliceHeight) stride)).isSome := by
    rw [allInto_isSome, List.forall_mem_append, copyRows_inRange, forall_interleave,
      blank_length (Nat.le_add_right _ _)]
    refine ⟨⟨rowsFit_of_le (Nat.le_refl width) ?_, rowsFit_of_le hstride (by omega)⟩,
      fun row hrow col hcol => ?_⟩
    · rw [Nat.mul_comm height]
      omega
    · have hread := Grid.cell_end hrow hcol (Nat.le_refl (width / 2))
      have hend := Grid.row_end (hrow.trans_le (Nat.le_max_right (sliceHeight / 2) (height / 2))) stride
      rw [Nat.mul_comm (max _ _)] at hend
      rw [Nat.mul_comm (height / 2)] at hread
      simp only [InRange, range_length hu, range_length hv]
      omega
  obtain ⟨padded, hpadded⟩ := Option.isSome_iff_exists.mp hin
  exact ⟨padded, hu, hv, hpadded⟩

/-- The copies of `i420ToPaddedPlanar` are in range. -/
theorem exists_paddedPlanar (hlen : width * height + width * height / 4 * 2 ≤ src.length)
    (hstride : width ≤ stride) (hslice : height ≤ sliceHeight) (chromaStride chromaPadded total : ℕ)
    (hcs : width / 2 ≤ chromaStride) (hcp : height / 2 * chromaStride ≤ chromaPadded)
    (htotal : stride * sliceHeight + chromaPadded * 2 ≤ total) :
    ∃ padded, allInto (blank (stride * sliceHeight) total)
      (copyRows src height width 0 width 0 stride ++
        copyPlanes src (height / 2) (width / 2) (width * height) (width * height + width * height / 4)
          (width / 2) (stride * sliceHeight) (stride * sliceHeight + chromaPadded) chromaStride) =
        some padded := by
  have hrows : height * stride ≤ stride * sliceHeight := by
    rw [Nat.mul_comm]
    exact Nat.mul_le_mul_left stride hslice
  have hchroma := chroma_le width height
  rw [← Option.isSome_iff_exists, allInto_isSome, List.forall_mem_append, forall_copyPlanes,
    copyRows_inRange, copyRows_inRange, copyRows_inRange, blank_length (by omega)]
  rw [Nat.mul_comm (width / 2)] at hchroma
  refine ⟨⟨rowsFit_of_le (Nat.le_refl width) ?_, rowsFit_of_le hstride (by omega)⟩,
    ⟨rowsFit_of_le (Nat.le_refl _) (by omega), rowsFit_of_le hcs (by omega)⟩,
    rowsFit_of_le (Nat.le_refl _) (by omega), rowsFit_of_le hcs (by omega)⟩
  rw [Nat.mul_comm height]
  omega

theorem i420ToPaddedNv12_isSome (src : Buf) (width height stride sliceHeight : ℕ) :
    (i420ToPaddedNv12 src width height stride sliceHeight).isSome := by
  rw [i420ToPaddedNv12]
  split
  · rfl
  next ySize hy =>
  obtain ⟨-, rfl⟩ := checkedMul_eq_some.mp hy
  dsimp only
  split
  · rfl
  next hlen =>
  split
  · rfl
  next hlayout =>
  rw [not_or, Nat.not_lt, Nat.not_lt] at hlayout
  split
  · rfl
  · rfl
  next _ _ yPaddedSize uvPaddedSize hyp huv =>
  obtain ⟨-, rfl⟩ := checkedMul_eq_some.mp hyp
  obtain ⟨-, rfl⟩ := checkedMul_eq_some.mp huv
  split
  · rfl
  next total htotal =>
  obtain ⟨-, rfl⟩ := checkedAdd_eq_some.mp htotal
  obtain ⟨u, v, padded, hu, hv, hpadded⟩ :=
    exists_paddedNv12 (Nat.not_lt.mp hlen) hlayout.1 hlayout.2
  rw [allInto_append] at hpadded
  obtain ⟨out, hout, hpadded⟩ := Option.bind_eq_some_iff.mp hpadded
  simp only [hout, hu, hv, hpadded, Option.bind_eq_bind, Option.bind_some, finished,
    Option.map_some, Option.isSome_some]

theorem i420ToPaddedPlanar_isSome (src : Buf) (width height stride sliceHeight : ℕ) :
    (i420ToPaddedPlanar src width height stride sliceHeight).isSome := by
  rw [i420ToPaddedPlanar]
  split
  · rfl
  next ySize hy =>
  obtain ⟨-, rfl⟩ := checkedMul_eq_some.mp hy
  dsimp only
  split
  · rfl
  next hlen =>
  split
  · rfl
  next hlayout =>
  rw [not_or, Nat.not_lt, Nat.not_lt] at hlayout
  split
  · rfl
  · rfl
  next _ _ yPaddedSize chromaPaddedSize hyp hcp =>
  obtain ⟨-, rfl⟩ := checkedMul_eq_some.mp hyp
  obtain ⟨-, rfl⟩ := checkedMul_eq_some.mp hcp
  split
  · rfl
  next chromaTotal hct =>
  obtain ⟨-, rfl⟩ := checkedMul_eq_some.mp hct
  split
  · rfl
  next total htotal =>
  obtain ⟨-, rfl⟩ := checkedAdd_eq_some.mp htotal
  obtain ⟨padded, hpadded⟩ := exists_paddedPlanar (Nat.not_lt.mp hlen) hlayout.1 hlayout.2
    (max (stride / 2) (width / 2)) (max (stride / 2) (width / 2) * max (sliceHeight / 2) (height / 2)) _
    (Nat.le_max_right _ _)
    (by rw [Nat.mul_comm]; exact Nat.mul_le_mul_left _ (Nat.le_max_right _ _)) (Nat.le_refl _)
  rw [hpadded]
  rfl

/-- Within the bounds of an address, the planes of a layout that holds the frame do not overflow. -/
theorem i420ToPaddedNv12_eq (harea : width * height < 2 ^ 63) (hpadded : stride * sliceHeight < 2 ^ 63)
    (hlen : width * height + width * height / 4 * 2 ≤ src.length) (hstride : width ≤ stride)
    (hslice : height ≤ sliceHeight) :
    i420ToPaddedNv12 src width height stride sliceHeight =
      finished (do
        let out ← allInto (blank (stride * sliceHeight)
          (stride * sliceHeight + stride * (sliceHeight / 2)))
          (copyRows src height width 0 width 0 stride)
        let u ← range src (width * height) (width * height / 4)
        let v ← range src (width * height + width * height / 4) (width * height / 4)
        allInto out (interleave u v (height / 2) (width / 2) (stride * sliceHeight) stride)) := by
  have hchroma : stride * (sliceHeight / 2) * 2 ≤ stride * sliceHeight := by
    rw [Nat.mul_assoc]
    exact Nat.mul_le_mul_left stride (Nat.div_mul_le_self sliceHeight 2)
  have hlayout : ¬ (stride < width ∨ sliceHeight < height) := by omega
  simp only [i420ToPaddedNv12, checkedMul_eq_some.mpr ⟨harea.trans (by decide), rfl⟩,
    if_neg (Nat.not_lt.mpr hlen), if_neg hlayout,
    Nat.max_eq_left (Nat.div_le_div_right hslice : height / 2 ≤ sliceHeight / 2),
    checkedMul_eq_some.mpr ⟨hpadded.trans (by decide), rfl⟩,
    checkedMul_eq_some.mpr ⟨(by omega : stride * (sliceHeight / 2) < 2 ^ 64), rfl⟩,
    checkedAdd_eq_some.mpr
      ⟨(by omega : stride * sliceHeight + stride * (sliceHeight / 2) < 2 ^ 64), rfl⟩]

theorem i420ToPaddedPlanar_eq (harea : width * height < 2 ^ 63)
    (hpadded : stride * sliceHeight < 2 ^ 63)
    (hlen : width * height + width * height / 4 * 2 ≤ src.length) (hstride : width ≤ stride)
    (hslice : height ≤ sliceHeight) :
    i420ToPaddedPlanar src width height stride sliceHeight =
      finished (allInto (blank (stride * sliceHeight)
          (stride * sliceHeight + stride / 2 * (sliceHeight / 2) * 2))
        (copyRows src height width 0 width 0 stride ++
          copyPlanes src (height / 2) (width / 2) (width * height)
            (width * height + width * height / 4) (width / 2) (stride * sliceHeight)
            (stride * sliceHeight + stride / 2 * (sliceHeight / 2)) (stride / 2))) := by
  have hchroma := chroma_le stride sliceHeight
  have hlayout : ¬ (stride < width ∨ sliceHeight < height) := by omega
  simp only [i420ToPaddedPlanar, checkedMul_eq_some.mpr ⟨harea.trans (by decide), rfl⟩,
    if_neg (Nat.not_lt.mpr hlen), if_neg hlayout,
    Nat.max_eq_left (Nat.div_le_div_right hslice : height / 2 ≤ sliceHeight / 2),
    Nat.max_eq_left (Nat.div_le_div_right hstride : width / 2 ≤ stride / 2),
    checkedMul_eq_some.mpr ⟨hpadded.trans (by decide), rfl⟩,
    checkedMul_eq_some.mpr ⟨(by omega : stride / 2 * (sliceHeight / 2) < 2 ^ 64), rfl⟩,
    checkedMul_eq_some.mpr ⟨(by omega : stride / 2 * (sliceHeight / 2) * 2 < 2 ^ 64), rfl⟩,
    checkedAdd_eq_some.mpr ⟨(by omega :
      stride * sliceHeight + stride / 2 * (sliceHeight / 2) * 2 < 2 ^ 64), rfl⟩]

end
/-! ## Frames made tight -/
section
variable {src : Buf} {width height stride sliceHeight : ℕ}

theorem i420Len_eq (h : width * height < 2 ^ 63) :
    i420Len width height = .ok (width * height + width * height / 2) := by
  rw [i420Len, checkedMul_eq_some.mpr ⟨by omega, rfl⟩, Option.bind_some,
    checkedAdd_eq_some.mpr ⟨by omega, rfl⟩]

/-- A planar frame is too small for its layout, or its last rows are in the buffer. -/
def PlanarFits (len width height stride sliceHeight : ℕ) : Prop :=
  len < stride * sliceHeight + stride / 2 * (sliceHeight / 2) * 2 ∨
    RowsFit len height 0 stride width ∧
      RowsFit len (height / 2) (stride * sliceHeight + stride / 2 * (sliceHeight / 2)) (stride / 2)
        (width / 2)

/-- A semiplanar frame is too small for its layout, or its last rows are in the buffer. -/
def SemiplanarFits (len width height stride sliceHeight : ℕ) : Prop :=
  len < stride * sliceHeight + stride * (height / 2) ∨
    RowsFit len height 0 stride width ∧
      (width / 2 = 0 ∨ RowsFit len (height / 2) (stride * sliceHeight) stride (width / 2 * 2))

instance (len width height stride sliceHeight : ℕ) :
    Decidable (PlanarFits len width height stride sliceHeight) :=
  inferInstanceAs (Decidable (_ ∨ _ ∧ _))

instance (len width height stride sliceHeight : ℕ) :
    Decidable (SemiplanarFits len width height stride sliceHeight) :=
  inferInstanceAs (Decidable (_ ∨ _ ∧ (_ ∨ _)))

theorem RowsFit.mono {len rows start start' stride width : ℕ} (h : RowsFit len rows start stride width)
    (hstart : start' ≤ start) : RowsFit len rows start' stride width :=
  h.imp_right fun hlast => by omega

/-- The chroma planes of a tight frame are behind its luma. -/
theorem tight_rowsFit (width height : ℕ) :
    RowsFit (width * height + width * height / 2) height 0 width width ∧
      RowsFit (width * height + width * height / 2) (height / 2)
        (width * height + width / 2 * (height / 2)) (width / 2) (width / 2) := by
  have hchroma := chroma_le width height
  constructor
  · refine rowsFit_of_le (Nat.le_refl width) ?_
    rw [Nat.mul_comm height]
    omega
  · refine rowsFit_of_le (Nat.le_refl _) ?_
    rw [Nat.mul_comm (height / 2)]
    omega

theorem yuv420PlanarToTightI420_eq (harea : width * height < 2 ^ 63)
    (hlen : stride * sliceHeight + stride / 2 * (sliceHeight / 2) * 2 ≤ src.length) :
    yuv420PlanarToTightI420 src width height stride sliceHeight =
      finished (allInto (List.replicate (width * height + width * height / 2) 0)
        (copyRows src height width 0 stride 0 width ++
          copyPlanes src (height / 2) (width / 2) (stride * sliceHeight)
            (stride * sliceHeight + stride / 2 * (sliceHeight / 2)) (stride / 2) (width * height)
            (width * height + width / 2 * (height / 2)) (width / 2))) := by
  rw [yuv420PlanarToTightI420, if_neg (Nat.not_lt.mpr hlen)]
  simp only [i420Len_eq harea]

theorem yuv420SemiplanarToTightI420_eq (harea : width * height < 2 ^ 63)
    (hlen : stride * sliceHeight + stride * (height / 2) ≤ src.length) :
    yuv420SemiplanarToTightI420 src width height stride sliceHeight =
      finished (allInto (List.replicate (width * height + width * height / 2) 0)
        (copyRows src height width 0 stride 0 width ++
          deinterleave src (height / 2) (width / 2) (stride * sliceHeight) stride (width * height)
            (width * height + width / 2 * (height / 2)))) := by
  rw [yuv420SemiplanarToTightI420, if_neg (Nat.not_lt.mpr hlen)]
  simp only [i420Len_eq harea]

theorem yuv420PlanarToTightI420_isSome (harea : width * height < 2 ^ 63) :
    (yuv420PlanarToTightI420 src width height stride sliceHeight).isSome ↔
      PlanarFits src.length width height stride sliceHeight := by
  rw [PlanarFits]
  rcases Nat.lt_or_ge src.length
    (stride * sliceHeight + stride / 2 * (sliceHeight / 2) * 2) with hsmall | hlarge
  · rw [yuv420PlanarToTightI420, if_pos hsmall]
    exact iff_of_true rfl (Or.inl hsmall)
  obtain ⟨hy, hv⟩ := tight_rowsFit width height
  rw [yuv420PlanarToTightI420_eq harea hlarge, finished, Option.isSome_map, allInto_isSome,
    List.forall_mem_append, forall_copyPlanes, copyRows_inRange, copyRows_inRange, copyRows_inRange,
    List.length_replicate, or_iff_right (Nat.not_lt.mpr hlarge)]
  constructor
  · rintro ⟨⟨hluma, -⟩, -, hchroma, -⟩
    exact ⟨hluma, hchroma⟩
  · rintro ⟨hluma, hchroma⟩
    exact ⟨⟨hluma, hy⟩, ⟨hchroma.mono (Nat.le_add_right _ _), hv.mono (Nat.le_add_right _ _)⟩,
      hchroma, hv⟩

theorem yuv420SemiplanarToTightI420_isSome (harea : width * height < 2 ^ 63) :
    (yuv420SemiplanarToTightI420 src width height stride sliceHeight).isSome ↔
      SemiplanarFits src.length width height stride sliceHeight := by
  rw [SemiplanarFits]
  rcases Nat.lt_or_ge src.length (stride * sliceHeight + stride * (height / 2)) with hsmall | hlarge
  · rw [yuv420SemiplanarToTightI420, if_pos hsmall]
    exact iff_of_true rfl (Or.inl hsmall)
  obtain ⟨hy, hv⟩ := tight_rowsFit width height
  rw [rowsFit_iff] at hv
  rw [yuv420SemiplanarToTightI420_eq harea hlarge, finished, Option.isSome_map, allInto_isSome,
    List.forall_mem_append, forall_deinterleave, copyRows_inRange, List.length_replicate,
    or_iff_right (Nat.not_lt.mpr hlarge), and_iff_left hy]
  refine and_congr_right fun _ => ?_
  simp only [InRange, rowsFit_iff]
  constructor
  · intro h
    refine (Nat.eq_zero_or_pos (width / 2)).imp_right fun hpos row hrow => ?_
    have hlast := h row hrow (width / 2 - 1) (by omega)
    omega
  · rintro (hnone | hrows) row hrow col hcol
    · omega
    · have hread := hrows row hrow
      have hwrite := hv row hrow
      omega

end
end Wzp.Video.MediaCodec
