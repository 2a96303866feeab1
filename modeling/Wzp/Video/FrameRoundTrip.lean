import Wzp.Video.FrameConversion

/-!
# Padded frames made tight again

Each cell of a tight frame is read where padding wrote it, so that the frame comes back. A
frame of a decoder is read as its width and height say, and its size is checked as its stride
and slice height say: no access is out of range exactly if the visible rows are in the buffer.
-/
namespace Wzp.Video.MediaCodec
open Bytes Copy

/-- The sizes a codec reports, small enough that no product of them overflows. -/
structure FrameLayout where
  width : ℕ
  height : ℕ
  stride : ℕ
  sliceHeight : ℕ
  area_lt : width * height < 2 ^ 63
  padded_lt : stride * sliceHeight < 2 ^ 63
  rows_lt : stride * height < 2 ^ 63

/-- A layout with room for an even frame, and a buffer that holds the frame. -/
structure FrameLayout.Holds (l : FrameLayout) (src : Buf) : Prop where
  even_width : l.width % 2 = 0
  even_height : l.height % 2 = 0
  width_le : l.width ≤ l.stride
  height_le : l.height ≤ l.sliceHeight
  frame_le : l.width * l.height * 3 / 2 ≤ src.length

namespace FrameLayout
variable {l : FrameLayout} {src : Buf}

/-- The chroma planes of an even frame are a quarter of its luma. -/
theorem Holds.quarter (h : l.Holds src) :
    l.width * l.height = l.height / 2 * (l.width / 2) * 4 := by
  obtain ⟨a, ha⟩ := Nat.dvd_of_mod_eq_zero h.even_width
  obtain ⟨b, hb⟩ := Nat.dvd_of_mod_eq_zero h.even_height
  rw [ha, hb, Nat.mul_div_cancel_left a Nat.two_pos, Nat.mul_div_cancel_left b Nat.two_pos]
  ring

theorem Holds.expected_le (h : l.Holds src) :
    l.width * l.height + l.width * l.height / 4 * 2 ≤ src.length := by
  have hquarter := h.quarter
  have hframe := h.frame_le
  omega

theorem Holds.rows_le (h : l.Holds src) : l.height * l.stride ≤ l.stride * l.sliceHeight := by
  rw [Nat.mul_comm]
  exact Nat.mul_le_mul_left l.stride h.height_le

/-- A tight frame is the one it was made from, if each of its cells is. -/
theorem Holds.tight_eq (h : l.Holds src) {tight : Buf}
    (hlen : tight.length = l.width * l.height + l.width * l.height / 2)
    (hy : (plane src l.height l.width 0 l.width 0 l.width).Shown tight)
    (hu : (plane src (l.height / 2) (l.width / 2) (l.width * l.height) (l.width / 2)
      (l.width * l.height) (l.width / 2)).Shown tight)
    (hv : (plane src (l.height / 2) (l.width / 2) (l.width * l.height + l.width * l.height / 4)
      (l.width / 2) (l.width * l.height + l.width / 2 * (l.height / 2)) (l.width / 2)).Shown tight) :
    tight = src.take (l.width * l.height * 3 / 2) := by
  have hquarter := h.quarter
  have hplane : l.width * l.height / 4 = l.width / 2 * (l.height / 2) := by
    rw [hquarter, Nat.mul_div_cancel _ (by decide), Nat.mul_comm]
  rw [hplane] at hv
  rw [Nat.mul_comm (l.height / 2)] at hquarter
  refine List.ext_getElem? fun i => ?_
  rcases Nat.lt_or_ge i (l.width * l.height * 3 / 2) with hin | hbehind
  · rw [List.getElem?_take_of_lt hin]
    rcases Nat.lt_or_ge i (l.width * l.height) with hluma | hchroma
    · rw [Nat.mul_comm] at hluma
      obtain ⟨row, hrow, col, hcol, rfl⟩ := Grid.exists_place hluma
      simpa only [plane, Nat.zero_add] using hy row hrow col hcol
    obtain ⟨j, rfl⟩ := Nat.exists_eq_add_of_le hchroma
    rcases Nat.lt_or_ge j (l.width / 2 * (l.height / 2)) with hfirst | hsecond
    · rw [Nat.mul_comm] at hfirst
      obtain ⟨row, hrow, col, hcol, rfl⟩ := Grid.exists_place hfirst
      simpa only [plane, Nat.add_assoc] using hu row hrow col hcol
    · obtain ⟨k, rfl⟩ := Nat.exists_eq_add_of_le hsecond
      have hk : k < l.height / 2 * (l.width / 2) := by
        rw [Nat.mul_comm]
        omega
      obtain ⟨row, hrow, col, hcol, rfl⟩ := Grid.exists_place hk
      simpa only [plane, Nat.add_assoc] using hv row hrow col hcol
  · rw [List.getElem?_eq_none (by omega), List.getElem?_eq_none
      ((List.length_take_le _ _).trans hbehind)]

end FrameLayout
/-! ## There and back -/
section
variable {l : FrameLayout} {src : Buf}

/-- Padding to planes and making them tight again. -/
theorem planar_there_and_back (h : l.Holds src) :
    ∃ padded,
      i420ToPaddedPlanar src l.width l.height l.stride l.sliceHeight = some (.ok padded) ∧
      yuv420PlanarToTightI420 padded l.width l.height l.stride l.sliceHeight =
        some (.ok (src.take (l.width * l.height * 3 / 2))) := by
  have hrows := h.rows_le
  have hquarter := h.quarter
  have hcs : l.width / 2 ≤ l.stride / 2 := Nat.div_le_div_right h.width_le
  have hplane : l.height / 2 * (l.stride / 2) ≤ l.stride / 2 * (l.sliceHeight / 2) := by
    rw [Nat.mul_comm]
    exact Nat.mul_le_mul_left _ (Nat.div_le_div_right h.height_le)
  obtain ⟨padded, hpadded⟩ := exists_paddedPlanar h.expected_le h.width_le h.height_le (l.stride / 2)
    (l.stride / 2 * (l.sliceHeight / 2)) _ hcs hplane (Nat.le_refl _)
  have hlen := (allInto_length hpadded).trans (blank_length (Nat.le_add_right _ _))
  refine ⟨padded, by rw [i420ToPaddedPlanar_eq l.area_lt l.padded_lt h.expected_le h.width_le
    h.height_le, hpadded]; rfl, ?_⟩
  have hsome : (yuv420PlanarToTightI420 padded l.width l.height l.stride l.sliceHeight).isSome := by
    rw [yuv420PlanarToTightI420_isSome l.area_lt]
    exact Or.inr ⟨rowsFit_of_le h.width_le (by omega), rowsFit_of_le hcs (by omega)⟩
  rw [yuv420PlanarToTightI420_eq l.area_lt hlen.ge] at hsome ⊢
  rw [finished, Option.isSome_map] at hsome
  obtain ⟨tight, htight⟩ := Option.isSome_iff_exists.mp hsome
  rw [htight]
  have htightlen := (allInto_length htight).trans List.length_replicate
  have harea : l.height * l.width = l.width * l.height := Nat.mul_comm _ _
  obtain ⟨hy, hu, hv⟩ := planes_shown hpadded h.width_le hcs (by omega) (by omega)
  obtain ⟨hy', hu', hv'⟩ := planes_shown htight (Nat.le_refl _) (Nat.le_refl _) (by omega)
    (by rw [Nat.mul_comm (l.height / 2)])
  rw [h.tight_eq htightlen (plane_shown_trans hy' hy) (plane_shown_trans hu' hu)
    (plane_shown_trans hv' hv)]
  rfl

/-- Padding with pairs of chroma and making it tight again. -/
theorem semiplanar_there_and_back (h : l.Holds src) :
    ∃ padded,
      i420ToPaddedNv12 src l.width l.height l.stride l.sliceHeight = some (.ok padded) ∧
      yuv420SemiplanarToTightI420 padded l.width l.height l.stride l.sliceHeight =
        some (.ok (src.take (l.width * l.height * 3 / 2))) := by
  have hrows := h.rows_le
  have hquarter := h.quarter
  have hcols : l.width / 2 * 2 ≤ l.stride := (Nat.div_mul_le_self _ 2).trans h.width_le
  have hslice : l.height / 2 ≤ l.sliceHeight / 2 := Nat.div_le_div_right h.height_le
  have hplane : l.stride * (l.height / 2) ≤ l.stride * (l.sliceHeight / 2) :=
    Nat.mul_le_mul_left _ hslice
  obtain ⟨u, v, padded, hu, hv, hpadded⟩ :=
    exists_paddedNv12 h.expected_le h.width_le h.height_le
  rw [Nat.max_eq_left hslice] at hpadded
  have hlen := (allInto_length hpadded).trans (blank_length (Nat.le_add_right _ _))
  have hconverted : i420ToPaddedNv12 src l.width l.height l.stride l.sliceHeight =
      some (.ok padded) := by
    rw [allInto_append] at hpadded
    obtain ⟨out, hout, hpadded⟩ := Option.bind_eq_some_iff.mp hpadded
    simp only [i420ToPaddedNv12_eq l.area_lt l.padded_lt h.expected_le h.width_le h.height_le, hout,
      hu, hv, hpadded, Option.bind_eq_bind, Option.bind_some, finished, Option.map_some]
  refine ⟨padded, hconverted, ?_⟩
  have hsome :
      (yuv420SemiplanarToTightI420 padded l.width l.height l.stride l.sliceHeight).isSome := by
    rw [yuv420SemiplanarToTightI420_isSome l.area_lt]
    refine Or.inr ⟨rowsFit_of_le h.width_le (by omega), Or.inr (rowsFit_of_le hcols ?_)⟩
    rw [Nat.mul_comm (l.height / 2)]
    omega
  rw [yuv420SemiplanarToTightI420_eq l.area_lt (by omega)] at hsome ⊢
  rw [finished, Option.isSome_map] at hsome
  obtain ⟨tight, htight⟩ := Option.isSome_iff_exists.mp hsome
  rw [htight]
  have htightlen := (allInto_length htight).trans List.length_replicate
  have harea : l.height * l.width = l.width * l.height := Nat.mul_comm _ _
  have hsize : l.height / 2 * (l.width / 2) = l.width * l.height / 4 := by omega
  obtain ⟨hy, hu', hv'⟩ := interleave_shown hpadded h.width_le hcols (by omega)
  obtain ⟨hy', hu'', hv''⟩ := deinterleave_shown htight (Nat.le_refl _) (by omega)
    (by rw [Nat.mul_comm (l.height / 2)])
  rw [h.tight_eq htightlen (plane_shown_trans hy' hy) (gathered_shown_trans hu'' hu' hu hsize.le)
    (gathered_shown_trans hv'' hv' hv hsize.le)]
  rfl

end
/-! ## Conversions of what a codec reports -/
section
variable (l : FrameLayout) (src : Buf)

/-- Padding a frame and making it tight again gives it back, whether planar or semiplanar. -/
def ThereAndBack : Prop :=
  l.Holds src →
    (∃ padded, i420ToPaddedPlanar src l.width l.height l.stride l.sliceHeight = some (.ok padded) ∧
      yuv420PlanarToTightI420 padded l.width l.height l.stride l.sliceHeight =
        some (.ok (src.take (l.width * l.height * 3 / 2)))) ∧
    ∃ padded, i420ToPaddedNv12 src l.width l.height l.stride l.sliceHeight = some (.ok padded) ∧
      yuv420SemiplanarToTightI420 padded l.width l.height l.stride l.sliceHeight =
        some (.ok (src.take (l.width * l.height * 3 / 2)))

/-- No conversion of a buffer indexes out of range. -/
def NeverOutOfRange : Prop :=
  (i420ToPaddedPlanar src l.width l.height l.stride l.sliceHeight).isSome ∧
    (i420ToPaddedNv12 src l.width l.height l.stride l.sliceHeight).isSome ∧
    (yuv420PlanarToTightI420 src l.width l.height l.stride l.sliceHeight).isSome ∧
    (yuv420SemiplanarToTightI420 src l.width l.height l.stride l.sliceHeight).isSome

/-- Frames always come back, and conversions stay in range exactly if a frame that passes for
large enough holds the rows that are read. -/
theorem conversions_iff :
    ThereAndBack l src ∧ NeverOutOfRange l src ↔
      PlanarFits src.length l.width l.height l.stride l.sliceHeight ∧
        SemiplanarFits src.length l.width l.height l.stride l.sliceHeight := by
  have hback : ThereAndBack l src :=
    fun h => ⟨planar_there_and_back h, semiplanar_there_and_back h⟩
  rw [and_iff_right hback, NeverOutOfRange, yuv420PlanarToTightI420_isSome l.area_lt,
    yuv420SemiplanarToTightI420_isSome l.area_lt]
  constructor
  · rintro ⟨-, -, hplanar, hsemiplanar⟩
    exact ⟨hplanar, hsemiplanar⟩
  · rintro ⟨hplanar, hsemiplanar⟩
    exact ⟨i420ToPaddedPlanar_isSome .., i420ToPaddedNv12_isSome .., hplanar, hsemiplanar⟩

/-- A decoder may report fewer rows than the frame has: a buffer that holds the rows it
reports passes for large enough, and the rows of the frame are read beyond it. -/
theorem shortSlice_outOfRange :
    ∃ l src, ¬ (ThereAndBack l src ∧ NeverOutOfRange l src) ∧
      yuv420PlanarToTightI420 src l.width l.height l.stride l.sliceHeight = none :=
  ⟨⟨2, 2, 2, 1, by decide, by decide, by decide⟩, [16, 16], fun h => by
    have hplanar := h.2.2.2.1
    revert hplanar
    decide, by decide⟩

end
end Wzp.Video.MediaCodec
