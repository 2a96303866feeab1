import Mathlib.Data.List.Basic

/-!
# Resampling between 48 kHz and 8 kHz

A windowed-sinc filter runs over the samples with the end of the block before in front of
them. On the way down every sixth output is kept, on the way up each sample is followed by
five zeros.
-/
namespace Wzp.Codec

def firTaps : ℕ := 48
def kaiserBeta : Float := 8
def cutoffHz : Float := 3800
def sampleRateHz : Float := 48000
def ratio : ℕ := 6

/-! ## The kernel -/

/-- The terms of the power series from the `k`-th on, at most `n` of them. -/
def besselTerms (halfX : Float) : ℕ → ℕ → Float → Float → Float
  | 0, _, sum, _ => sum
  | n + 1, k, sum, term =>
      let term := term * ((halfX / Float.ofNat k) * (halfX / Float.ofNat k))
      let sum := sum + term
      if term < 1e-12 * sum then sum else besselTerms halfX n (k + 1) sum term

def besselI0 (x : Float) : Float := besselTerms (x / 2) 25 1 1 1

def pi : Float := 3.14159265358979323846264338327950288

def kaiserSinc (i : Fin firTaps) : Float :=
  let m := Float.ofNat (firTaps - 1)
  let fc := cutoffHz / sampleRateHz
  let n := Float.ofNat i - m / 2
  let sinc := if n.abs < 1e-12 then 2 * fc else (2 * pi * fc * n).sin / (pi * n)
  let t := 2 * Float.ofNat i / m - 1
  let kaiser := besselI0 (kaiserBeta * (max (1 - t * t) 0).sqrt) / besselI0 kaiserBeta
  sinc * kaiser

def buildFirKernel : Vector Float firTaps :=
  let kernel := Vector.ofFn kaiserSinc
  let sum := kernel.toList.foldl (· + ·) 0
  if sum.abs > 1e-15 then kernel.map (· / sum) else kernel

/-! ## The filter -/

/-- The operations on samples. -/
structure SampleArithmetic (F : Type*) where
  zero : F
  /-- The ratio as a factor. -/
  gain : F
  add : F → F → F
  mul : F → F → F
  ofSample : Int16 → F
  /-- Rounds, clamps and narrows. -/
  toSample : F → Int16

def f64 : SampleArithmetic Float where
  zero := 0
  gain := Float.ofNat ratio
  add := (· + ·)
  mul := (· * ·)
  ofSample s := Float.ofInt s.toInt
  toSample acc :=
    let rounded := acc.round
    (if rounded < -32768 then -32768 else if rounded > 32767 then 32767 else rounded).toInt16

/-- A filter between two blocks. -/
@[ext]
structure FirStream (F : Type*) where
  kernel : Vector F firTaps
  history : List F
  history_length : history.length = firTaps - 1

variable {F : Type*} (ops : SampleArithmetic F)

/-- One tap. The filter stops at the end of the work buffer. -/
def tap (kernel : Vector F firTaps) (work : List F) (start : ℕ) (acc : F) (k : ℕ) : Option F :=
  if start + k < work.length then
    work[start + k]?.bind fun x => kernel[k]?.map fun c => ops.add acc (ops.mul x c)
  else some acc

def filterAt (kernel : Vector F firTaps) (work : List F) (centre : ℕ) : Option F :=
  if firTaps ≤ centre + 1 then
    (List.range firTaps).foldlM (tap ops kernel work (centre + 1 - firTaps)) ops.zero
  else none

/-- The last samples of the work buffer, as many as the history has. -/
def updateHistory (history work : List F) : List F :=
  if history.length ≤ work.length then work.drop (work.length - history.length)
  else
    let shift := history.length - work.length
    let shifted := history.drop shift ++ history.drop (history.length - shift)
    shifted.take (history.length - work.length) ++ work

theorem updateHistory_length (history work : List F) :
    (updateHistory history work).length = history.length := by
  unfold updateHistory
  split
  · rw [List.length_drop]
    omega
  · simp only [List.length_append, List.length_take, List.length_drop]
    omega

/-- `outLen` outputs, `stride` samples apart. -/
def FirStream.pass (stream : FirStream F) (fresh : List F) (outLen stride : ℕ)
    (finish : F → Int16) : Option (FirStream F × List Int16) :=
  let work := stream.history ++ fresh
  ((List.range outLen).mapM fun i =>
      (filterAt ops stream.kernel work (stream.history.length + i * stride)).map finish).map
    fun output =>
      ({ stream with
          history := updateHistory stream.history work
          history_length := (updateHistory_length _ _).trans stream.history_length }, output)

def FirStream.new (kernel : Vector F firTaps) : FirStream F where
  kernel
  history := List.replicate (firTaps - 1) ops.zero
  history_length := List.length_replicate

abbrev Downsampler48to8 := FirStream

def Downsampler48to8.process (down : Downsampler48to8 F) (input : List Int16) :
    Option (Downsampler48to8 F × List Int16) :=
  down.pass ops (input.map ops.ofSample) (input.length / ratio) ratio ops.toSample

abbrev Upsampler8to48 := FirStream

def stuffed (input : List Int16) : List F :=
  input.flatMap fun s => ops.ofSample s :: List.replicate (ratio - 1) ops.zero

def Upsampler8to48.process (up : Upsampler8to48 F) (input : List Int16) :
    Option (Upsampler8to48 F × List Int16) :=
  up.pass ops (stuffed ops input) (input.length * ratio) 1
    fun acc => ops.toSample (ops.mul acc ops.gain)

end Wzp.Codec
