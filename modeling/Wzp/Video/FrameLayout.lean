import Mathlib.Tactic.Ring
import Wzp.Lib.Bytes
import Wzp.Lib.Copies

/-!
# Frame layouts of MediaCodec

A tight I420 frame is padded to the rows and planes of an encoder's input buffer, planar or
with interleaved chroma, and a decoder's output is made tight again. Allocations are taken
to succeed.
-/
namespace Wzp.Video.MediaCodec
open Bytes

inductive VideoError where
  | platformError (message : String)
  | invalidInput (message : String)
  | notInitialized
  deriving DecidableEq, Repr

/-- Nothing stands for an access out of range. -/
abbrev Outcome := Option (Except VideoError Buf)

/-- The buffer, if every access was in range. -/
def finished (out : Option Buf) : Outcome := out.map .ok

def checkedMul (a b : ℕ) : Option ℕ := if a * b < 2 ^ 64 then some (a * b) else none

def checkedAdd (a b : ℕ) : Option ℕ := if a + b < 2 ^ 64 then some (a + b) else none

def i420Len (width height : ℕ) : Except VideoError ℕ :=
  match (checkedMul width height).bind fun y => checkedAdd y (y / 2) with
  | some len => .ok len
  | none => .error (.invalidInput s!"invalid I420 dimensions {width}x{height}")

/-! ## The loops -/

/-- Rows of a plane, each copied as a whole. -/
def copyRows (source : Buf) (rows len start sourceStride dst dstStride : ℕ) : List (Copy UInt8) :=
  (List.range rows).map fun row =>
    { source, start := start + row * sourceStride, dst := dst + row * dstStride, len }

/-- Rows of two planes, in turn. -/
def copyPlanes (source : Buf) (rows len srcU srcV sourceStride dstU dstV dstStride : ℕ) :
    List (Copy UInt8) :=
  (List.range rows).flatMap fun row =>
    [{ source, start := srcU + row * sourceStride, dst := dstU + row * dstStride, len },
      { source, start := srcV + row * sourceStride, dst := dstV + row * dstStride, len }]

/-- Two planes become pairs. -/
def interleave (u v : Buf) (rows cols uvPlane uvStride : ℕ) : List (Copy UInt8) :=
  (List.range rows).flatMap fun row => (List.range cols).flatMap fun col =>
    [{ source := u, start := row * cols + col, dst := uvPlane + row * uvStride + col * 2, len := 1 },
      { source := v, start := row * cols + col, dst := uvPlane + row * uvStride + col * 2 + 1,
        len := 1 }]

/-- Pairs become two planes. -/
def deinterleave (source : Buf) (rows cols uvPlane uvStride dstU dstV : ℕ) : List (Copy UInt8) :=
  (List.range rows).flatMap fun row => (List.range cols).flatMap fun col =>
    [{ source, start := uvPlane + row * uvStride + col * 2, dst := dstU + row * cols + col, len := 1 },
      { source, start := uvPlane + row * uvStride + col * 2 + 1, dst := dstV + row * cols + col,
        len := 1 }]

/-- Luma is filled with 0, what is behind it with 128. -/
def blank (ySize total : ℕ) : Buf := List.replicate ySize 0 ++ List.replicate (total - ySize) 128

/-! ## Into the layout of an encoder -/

def i420ToPaddedNv12 (src : Buf) (width height stride sliceHeight : ℕ) : Outcome :=
  match checkedMul width height with
  | none => some (.error (.invalidInput s!"invalid frame dimensions {width}x{height}"))
  | some ySize =>
      let uvSize := ySize / 4
      let expected := ySize + uvSize * 2
      let len := src.length
      if src.length < expected then
        some (.error (.invalidInput
          s!"I420 frame too small for NV12 conversion: {len} bytes, expected {expected}"))
      else if stride < width ∨ sliceHeight < height then
        some (.error (.invalidInput
          s!"invalid encoder input layout {stride}x{sliceHeight} for {width}x{height}"))
      else
        let chromaWidth := width / 2
        let chromaHeight := height / 2
        let uvSliceHeight := max (sliceHeight / 2) chromaHeight
        match checkedMul stride sliceHeight, checkedMul stride uvSliceHeight with
        | none, _ =>
            some (.error (.invalidInput s!"invalid padded Y layout {stride}x{sliceHeight}"))
        | some _, none =>
            some (.error (.invalidInput s!"invalid padded UV layout {stride}x{uvSliceHeight}"))
        | some yPaddedSize, some uvPaddedSize =>
            match checkedAdd yPaddedSize uvPaddedSize with
            | none => some (.error (.invalidInput "padded NV12 size overflow"))
            | some total =>
                finished do
                  let out ← Copy.allInto (blank yPaddedSize total)
                    (copyRows src height width 0 width 0 stride)
                  let u ← Copy.range src ySize uvSize
                  let v ← Copy.range src (ySize + uvSize) uvSize
                  Copy.allInto out (interleave u v chromaHeight chromaWidth yPaddedSize stride)

def i420ToPaddedPlanar (src : Buf) (width height stride sliceHeight : ℕ) : Outcome :=
  match checkedMul width height with
  | none => some (.error (.invalidInput s!"invalid frame dimensions {width}x{height}"))
  | some ySize =>
      let uvSize := ySize / 4
      let expected := ySize + uvSize * 2
      let len := src.length
      if src.length < expected then
        some (.error (.invalidInput
          s!"I420 frame too small for padded planar copy: {len} bytes, expected {expected}"))
      else if stride < width ∨ sliceHeight < height then
        some (.error (.invalidInput
          s!"invalid encoder input layout {stride}x{sliceHeight} for {width}x{height}"))
      else
        let chromaWidth := width / 2
        let chromaHeight := height / 2
        let chromaStride := max (stride / 2) chromaWidth
        let chromaSliceHeight := max (sliceHeight / 2) chromaHeight
        match checkedMul stride sliceHeight, checkedMul chromaStride chromaSliceHeight with
        | none, _ =>
            some (.error (.invalidInput s!"invalid padded Y layout {stride}x{sliceHeight}"))
        | some _, none =>
            some (.error (.invalidInput
              s!"invalid padded chroma layout {chromaStride}x{chromaSliceHeight}"))
        | some yPaddedSize, some chromaPaddedSize =>
            match checkedMul chromaPaddedSize 2 with
            | none => some (.error (.invalidInput "padded I420 chroma size overflow"))
            | some chromaTotal =>
                match checkedAdd yPaddedSize chromaTotal with
                | none => some (.error (.invalidInput "padded I420 size overflow"))
                | some total =>
                    finished (Copy.allInto (blank yPaddedSize total)
                      (copyRows src height width 0 width 0 stride ++
                        copyPlanes src chromaHeight chromaWidth ySize (ySize + uvSize) chromaWidth
                          yPaddedSize (yPaddedSize + chromaPaddedSize) chromaStride))

/-! ## Out of the layout of a decoder -/

def yuv420PlanarToTightI420 (src : Buf) (width height stride sliceHeight : ℕ) : Outcome :=
  let ySize := width * height
  let chromaWidth := width / 2
  let chromaHeight := height / 2
  let chromaStride := stride / 2
  let chromaSliceHeight := sliceHeight / 2
  let paddedYSize := stride * sliceHeight
  let paddedChromaSize := chromaStride * chromaSliceHeight
  let required := paddedYSize + paddedChromaSize * 2
  let len := src.length
  if src.length < required then
    some (.error (.platformError s!"planar YUV buffer too small: {len} < {required} (stride={stride}, slice_height={sliceHeight})"))
  else
    match i420Len width height with
    | .error e => some (.error e)
    | .ok size =>
        finished (Copy.allInto (List.replicate size 0)
          (copyRows src height width 0 stride 0 width ++
            copyPlanes src chromaHeight chromaWidth paddedYSize (paddedYSize + paddedChromaSize)
              chromaStride ySize (ySize + chromaWidth * chromaHeight) chromaWidth))

def yuv420SemiplanarToTightI420 (src : Buf) (width height stride sliceHeight : ℕ) : Outcome :=
  let ySize := width * height
  let chromaWidth := width / 2
  let chromaHeight := height / 2
  let paddedYSize := stride * sliceHeight
  let required := paddedYSize + stride * chromaHeight
  let len := src.length
  if src.length < required then
    some (.error (.platformError s!"semiplanar YUV buffer too small: {len} < {required} (stride={stride}, slice_height={sliceHeight})"))
  else
    match i420Len width height with
    | .error e => some (.error e)
    | .ok size =>
        finished (Copy.allInto (List.replicate size 0)
          (copyRows src height width 0 stride 0 width ++
            deinterleave src chromaHeight chromaWidth paddedYSize stride ySize
              (ySize + chromaWidth * chromaHeight)))

end Wzp.Video.MediaCodec
