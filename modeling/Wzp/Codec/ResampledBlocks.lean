import Mathlib.Data.Nat.ModEq
import Wzp.Codec.Resample
import Wzp.Lib.Answers
import Wzp.Lib.Windows

/-!
# Resampling block by block

Every window of the filter lies in the work buffer, and the history is what the windows of
the next block need of this one. So the cuts between the blocks leave no trace.
-/
namespace Wzp.Codec
open Answers Windows

theorem mapM_eq_some_map {α β : Type*} {f : α → Option β} {g : α → β} {as : List α}
    (h : ∀ a ∈ as, f a = some (g a)) : as.mapM f = some (as.map g) := by
  induction as with
  | nil => rfl
  | cons a as ih =>
      rw [List.mapM_cons, h a List.mem_cons_self, ih fun b hb => h b (List.mem_cons_of_mem a hb)]
      rfl

variable {F : Type*} (ops : SampleArithmetic F)

/-! ## The filter on a full window -/

def products (acc : F) (pairs : List (F × F)) : F :=
  pairs.foldl (fun acc p => ops.add acc (ops.mul p.1 p.2)) acc

def fir (kernel : Vector F firTaps) (window : List F) : F :=
  products ops ops.zero (window.zip kernel.toList)

/-- From the `k`-th tap on, no access leaves the kernel or the window. -/
theorem foldlM_tap (kernel : Vector F firTaps) {work : List F} {start : ℕ}
    (hfull : start + firTaps ≤ work.length) (n : ℕ) {k : ℕ} (hk : k + n = firTaps) (acc : F) :
    (List.range' k n).foldlM (tap ops kernel work start) acc =
      some (products ops acc
        (((work.drop (start + k)).take n).zip (kernel.toList.drop k))) := by
  induction n generalizing k acc with
  | zero => rfl
  | succ n ih =>
      have hwork : start + k < work.length := by omega
      have hkernel : k < kernel.toList.length := by
        rw [Vector.length_toList]
        omega
      have htap : tap ops kernel work start acc k =
          some (ops.add acc (ops.mul work[start + k] kernel.toList[k])) := by
        rw [tap, if_pos hwork, List.getElem?_eq_getElem hwork, ← Vector.getElem?_toList,
          List.getElem?_eq_getElem hkernel]
        rfl
      rw [List.range'_succ, List.foldlM_cons, htap, List.drop_eq_getElem_cons hwork,
        List.drop_eq_getElem_cons hkernel, List.take_succ_cons, List.zip_cons_cons]
      exact ih (by omega) _

theorem filterAt_eq (kernel : Vector F firTaps) {work : List F} {start : ℕ}
    (hfull : start + firTaps ≤ work.length) :
    filterAt ops kernel work (firTaps - 1 + start) =
      some (fir ops kernel ((work.drop start).take firTaps)) := by
  have htaps : 0 < firTaps := by decide
  have hstart : firTaps - 1 + start + 1 - firTaps = start := by omega
  rw [filterAt, if_pos (by omega), hstart, List.range_eq_range',
    foldlM_tap ops kernel hfull firTaps (Nat.zero_add firTaps)]
  rfl

/-! ## One block -/

variable (stream : FirStream F) {fresh : List F} {stride n : ℕ} (finish : F → Int16)

/-- The filter after so many samples. -/
def FirStream.after (fresh : List F) : FirStream F where
  kernel := stream.kernel
  history := (stream.history ++ fresh).drop fresh.length
  history_length := by
    rw [List.length_drop, List.length_append, stream.history_length]
    omega

theorem updateHistory_append :
    updateHistory stream.history (stream.history ++ fresh) =
      (stream.history ++ fresh).drop fresh.length := by
  rw [updateHistory, List.length_append, if_pos (Nat.le_add_right _ _), Nat.add_sub_cancel_left]

theorem reaches_work (hlen : n * stride ≤ fresh.length) :
    Reaches firTaps stride n (stream.history ++ fresh) := by
  have htaps : 0 < firTaps := by decide
  rw [Reaches, List.length_append, stream.history_length]
  omega

/-- Each output is the filter on a window of the work buffer. -/
theorem pass_eq (hstride : 0 < stride) (hlen : n * stride ≤ fresh.length) :
    stream.pass ops fresh n stride finish =
      some (stream.after fresh, (windows firTaps stride n (stream.history ++ fresh)).map
        fun window => finish (fir ops stream.kernel window)) := by
  have houtput : ∀ i ∈ List.range n,
      (filterAt ops stream.kernel (stream.history ++ fresh)
        (stream.history.length + i * stride)).map finish =
      some (finish (fir ops stream.kernel
        (((stream.history ++ fresh).drop (i * stride)).take firTaps))) := by
    intro i hi
    have hfull := (reaches_work stream hlen).window_le hstride (List.mem_range.mp hi)
    rw [stream.history_length, filterAt_eq ops stream.kernel hfull]
    rfl
  rw [FirStream.pass, mapM_eq_some_map houtput, windows, List.map_map]
  simp only [Option.map_some, updateHistory_append]
  rfl

theorem after_nil : stream.after [] = stream := by
  apply FirStream.ext
  · rfl
  · exact List.append_nil _

theorem after_append (more : List F) :
    stream.after (fresh ++ more) = (stream.after fresh).after more := by
  apply FirStream.ext
  · rfl
  · have hle : fresh.length ≤ (stream.history ++ fresh).length := by
      rw [List.length_append]
      exact Nat.le_add_left _ _
    change (stream.history ++ (fresh ++ more)).drop (fresh ++ more).length =
      ((stream.history ++ fresh).drop fresh.length ++ more).drop more.length
    rw [← List.append_assoc, List.length_append, ← List.drop_drop,
      List.drop_append_of_le_length hle]

theorem pass_nil (hstride : 0 < stride) :
    stream.pass ops [] 0 stride finish = some (stream, []) := by
  rw [pass_eq ops stream finish hstride (Nat.le_of_eq (Nat.zero_mul stride)), after_nil]
  rfl

/-- A block may be cut anywhere between two strides. -/
theorem pass_append (hstride : 0 < stride) (hlen : fresh.length = n * stride) {more : List F} {m : ℕ}
    (hmore : m * stride ≤ more.length) :
    ∃ out, stream.pass ops fresh n stride finish = some (stream.after fresh, out) ∧
      stream.pass ops (fresh ++ more) (n + m) stride finish =
        ((stream.after fresh).pass ops more m stride finish).map fun r => (r.1, out ++ r.2) := by
  have hwhole : (n + m) * stride ≤ (fresh ++ more).length := by
    rw [List.length_append, hlen, Nat.add_mul]
    omega
  refine ⟨_, pass_eq ops stream finish hstride (Nat.le_of_eq hlen.symm), ?_⟩
  rw [pass_eq ops stream finish hstride hwhole, pass_eq ops (stream.after fresh) finish hstride hmore,
    ← List.append_assoc, windows_append (reaches_work stream (Nat.le_of_eq hlen.symm)) (by decide) hstride,
    List.map_append, after_append, ← hlen]
  rfl

/-! ## Down and up -/

theorem stuffed_length (input : List Int16) : (stuffed ops input).length = input.length * ratio := by
  induction input with
  | nil => exact (Nat.zero_mul ratio).symm
  | cons s rest ih =>
      rw [stuffed, List.flatMap_cons, List.length_append, ← stuffed, ih, List.length_cons,
        List.length_replicate, List.length_cons, Nat.succ_mul]
      exact Nat.add_comm _ _

theorem Downsampler48to8.process_append (down : Downsampler48to8 F) (input more : List Int16)
    (hinput : ratio ∣ input.length) :
    ∃ down' out, down.process ops input = some (down', out) ∧
      down.process ops (input ++ more) =
        (down'.process ops more).map fun r => (r.1, out ++ r.2) := by
  have hlen : (input.map ops.ofSample).length = input.length / ratio * ratio := by
    rw [List.length_map, Nat.div_mul_cancel hinput]
  have hmore : more.length / ratio * ratio ≤ (more.map ops.ofSample).length := by
    rw [List.length_map]
    exact Nat.div_mul_le_self _ _
  obtain ⟨out, hpass, happend⟩ := pass_append ops down ops.toSample (by decide) hlen hmore
  refine ⟨_, out, hpass, ?_⟩
  rw [process, List.map_append, List.length_append, Nat.add_div_of_dvd_right hinput, happend]
  rfl

theorem Upsampler8to48.process_append (up : Upsampler8to48 F) (input more : List Int16) :
    ∃ up' out, up.process ops input = some (up', out) ∧
      up.process ops (input ++ more) =
        (up'.process ops more).map fun r => (r.1, out ++ r.2) := by
  have hlen (xs : List Int16) : (stuffed ops xs).length = xs.length * ratio * 1 := by
    rw [stuffed_length, Nat.mul_one]
  obtain ⟨out, hpass, happend⟩ := pass_append ops up (fun acc => ops.toSample (ops.mul acc ops.gain))
    Nat.one_pos (hlen input) (Nat.le_of_eq (hlen more).symm)
  refine ⟨_, out, hpass, ?_⟩
  rw [process, stuffed, List.flatMap_append, List.length_append, Nat.add_mul]
  exact happend

theorem Downsampler48to8.process_length {down down' : Downsampler48to8 F} {input out : List Int16}
    (h : down.process ops input = some (down', out)) : out.length = input.length / ratio := by
  have hlen : input.length / ratio * ratio ≤ (input.map ops.ofSample).length := by
    rw [List.length_map]
    exact Nat.div_mul_le_self _ _
  rw [process, pass_eq ops down ops.toSample (by decide) hlen] at h
  obtain ⟨-, rfl⟩ := Prod.mk.inj (Option.some.inj h)
  rw [List.length_map, windows_length]

theorem Upsampler8to48.process_length {up up' : Upsampler8to48 F} {input out : List Int16}
    (h : up.process ops input = some (up', out)) : out.length = input.length * ratio := by
  have hlen : input.length * ratio * 1 ≤ (stuffed ops input).length :=
    Nat.le_of_eq ((Nat.mul_one _).trans (stuffed_length ops input).symm)
  rw [process, pass_eq ops up _ Nat.one_pos hlen] at h
  obtain ⟨-, rfl⟩ := Prod.mk.inj (Option.some.inj h)
  rw [List.length_map, windows_length]

/-- The cuts between blocks leave no trace, in either direction. -/
theorem resampling_split_invariant (down : Downsampler48to8 F) (up : Upsampler8to48 F)
    (blocks : List (List Int16)) :
    ((∀ block ∈ blocks, ratio ∣ block.length) →
      ∃ down' outs, answers (Downsampler48to8.process ops) down blocks = some (down', outs) ∧
        down.process ops blocks.flatten = some (down', outs.flatten) ∧
        outs.flatten.length = blocks.flatten.length / ratio) ∧
    ∃ up' outs, answers (Upsampler8to48.process ops) up blocks = some (up', outs) ∧
      up.process ops blocks.flatten = some (up', outs.flatten) ∧
      outs.flatten.length = blocks.flatten.length * ratio := by
  constructor
  · intro hblocks
    obtain ⟨down', outs, hanswers, hwhole⟩ :=
      answers_flatten (fun s => pass_nil ops s _ (by decide)) (Downsampler48to8.process_append ops) down hblocks
    exact ⟨down', outs, hanswers, hwhole, Downsampler48to8.process_length ops hwhole⟩
  · obtain ⟨up', outs, hanswers, hwhole⟩ :=
      answers_flatten (fun s => pass_nil ops s _ Nat.one_pos)
        (fun s x y (_ : True) => Upsampler8to48.process_append ops s x y) up fun _ _ => trivial
    exact ⟨up', outs, hanswers, hwhole, Upsampler8to48.process_length ops hwhole⟩

/-- With the arithmetic and the kernel of the code, a block shorter than the history, an empty
one and a longer one. -/
theorem down_in_three_blocks :
    ∃ down' outs, answers (Downsampler48to8.process f64) (.new f64 buildFirKernel)
        [List.replicate 6 1, [], List.replicate 60 2] = some (down', outs) ∧
      Downsampler48to8.process f64 (.new f64 buildFirKernel) (List.replicate 6 1 ++ List.replicate 60 2) =
        some (down', outs.flatten) ∧
      outs.flatten.length = 11 := by
  have hblocks : ∀ block ∈ [List.replicate 6 (1 : Int16), [], List.replicate 60 2],
      ratio ∣ block.length := by decide
  exact (resampling_split_invariant f64 (.new f64 buildFirKernel) (.new f64 buildFirKernel) _).1
    hblocks

end Wzp.Codec
