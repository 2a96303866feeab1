import Mathlib.Data.List.Range
import Wzp.Client.AudioRing
import Wzp.Lib.Answers

/-!
# The audio ring as a queue that forgets

The cursors are positions in the stream of all written samples. Only the last of them, as
many as the ring has cells, can still be read.
-/
namespace Wzp.Client
open Answers Runs

theorem ringCapacity_toNat : ringCapacity.toNat = 16384 := rfl

/-- A large enough read returns all that is left. -/
theorem LossyQueue.large_read {queue : LossyQueue} {out : List Int16}
    (hout : ringCapacity.toNat ≤ out.length) :
    ((queue.written.drop queue.start).take out.length).length =
      queue.written.length - queue.start := by
  rw [List.length_take, List.length_drop, LossyQueue.start]
  omega

namespace AudioRing

/-! ## Cells -/

theorem cell_eq {pos : UInt64} {p i : ℕ} (hpos : pos.toNat = p) (h : p + i < 2 ^ 64) :
    cell pos i = (p + i) % 16384 := by
  have hi : (UInt64.ofNat i).toNat = i := UInt64.toNat_ofNat_of_lt' (by
    change i < 2 ^ 64
    omega)
  have hmask : ringMask.toNat = 2 ^ 14 - 1 := rfl
  rw [cell, UInt64.toNat_and, UInt64.toNat_add, hpos, hi, hmask, Nat.mod_eq_of_lt h,
    Nat.and_two_pow_sub_one_eq_mod]

theorem storeFrom_eq {w : UInt64} {p : ℕ} (hw : w.toNat = p) (samples : List Int16) {i : ℕ}
    (h : p + i + samples.length < 2 ^ 64) {buf : List Int16} (hlen : buf.length = 16384) :
    storeFrom w i samples buf = some (Rings.write buf (p + i) samples) := by
  induction samples generalizing i buf with
  | nil => rfl
  | cons sample rest ih =>
      rw [List.length_cons] at h
      have hcell : cell w i = (p + i) % buf.length := by
        rw [cell_eq hw (by omega), hlen]
      have hlt : cell w i < buf.length := by
        rw [hcell]
        exact Nat.mod_lt _ (by omega)
      have hset : (buf.set (cell w i) sample).length = 16384 := by rw [List.length_set, hlen]
      have hrest := ih (i := i + 1) (by omega) hset
      rw [storeFrom, Rings.store, if_pos hlt, Option.bind_some, hrest, hcell, Rings.write,
        Nat.add_assoc]

theorem loadFrom_eq {r : UInt64} {p : ℕ} (hr : r.toNat = p) {buf : List Int16}
    (hlen : buf.length = 16384) (n : ℕ) {i : ℕ} (h : p + i + n < 2 ^ 64) :
    loadFrom buf r i n = Rings.read buf (p + i) n := by
  induction n generalizing i with
  | zero => rfl
  | succ n ih =>
      rw [loadFrom, ih (by omega), cell_eq hr (by omega), Rings.read, hlen, Nat.add_assoc]

/-! ## The ring and the queue -/

/-- The ring after the calls that made the queue. -/
structure Follows (ring : AudioRing) (queue : LossyQueue) : Prop where
  length_eq : ring.buf.length = 16384
  holds : Rings.Holds 0 ring.buf queue.written
  writePos : ring.writePos.toNat = queue.written.length
  readPos : ring.readPos.toNat = queue.next
  next_le : queue.next ≤ queue.written.length
  overflowCount : ring.overflowCount.toNat = queue.skips
  skips_le : queue.skips ≤ queue.next
  returned_lt : ∀ position ∈ queue.returned, position < queue.next
  returned_increasing : queue.returned.Pairwise (· < ·)

theorem follows_new : Follows new .empty where
  length_eq := List.length_replicate
  holds := Rings.holds_nil _ 0
  writePos := rfl
  readPos := rfl
  next_le := Nat.le_refl 0
  overflowCount := rfl
  skips_le := Nat.le_refl 0
  returned_lt _ h := absurd h List.not_mem_nil
  returned_increasing := List.Pairwise.nil

variable {ring : AudioRing} {queue : LossyQueue}

/-- The cursors are compared as positions. -/
theorem Follows.unread (h : Follows ring queue) :
    (ring.writePos - ring.readPos).toNat = queue.written.length - queue.next := by
  have hle : ring.readPos ≤ ring.writePos := by
    rw [UInt64.le_iff_toNat_le, h.readPos, h.writePos]
    exact h.next_le
  rw [UInt64.toNat_sub_of_le _ _ hle, h.writePos, h.readPos]

theorem Follows.available_eq (h : Follows ring queue) :
    ring.available.toNat = queue.written.length - queue.start := by
  have hnext := h.next_le
  rw [available, UInt64.toNat_min, h.unread, LossyQueue.start, ringCapacity_toNat]
  omega

theorem Follows.write (h : Follows ring queue) (samples : List Int16)
    (hroom : queue.written.length + (samples.take ringCapacity.toNat).length < 2 ^ 63) :
    ∃ ring', ring.call (.write samples) = some (ring', (queue.call (.write samples)).2) ∧
      Follows ring' (queue.call (.write samples)).1 := by
  have hcount : (samples.take ringCapacity.toNat).length =
      min samples.length ringCapacity.toNat := by
    rw [List.length_take, Nat.min_comm]
  have htaken : samples.take (min samples.length ringCapacity.toNat) =
      samples.take ringCapacity.toNat := by
    rw [List.take_eq_take_iff]
    omega
  have hstore := storeFrom_eq h.writePos (samples.take ringCapacity.toNat) (i := 0) (by omega)
    h.length_eq
  rw [call, AudioRing.write, htaken, hstore, ← hcount]
  refine ⟨_, rfl, ?_⟩
  have hpos : (ring.writePos + UInt64.ofNat (samples.take ringCapacity.toNat).length).toNat =
      queue.written.length + (samples.take ringCapacity.toNat).length := by
    rw [UInt64.toNat_add, h.writePos, UInt64.toNat_ofNat', Nat.add_mod_mod,
      Nat.mod_eq_of_lt (by omega)]
  exact
    { h with
      length_eq := (Rings.write_length _ _).trans h.length_eq
      holds := h.holds.write _
      writePos := hpos.trans List.length_append.symm
      next_le := by
        have hnext := h.next_le
        change queue.next ≤ (queue.written ++ samples.take ringCapacity.toNat).length
        rw [List.length_append]
        omega }

/-- A read at a position from which all is left. -/
theorem readFrom_eq (ring : AudioRing) {stream : List Int16} {r avail : UInt64} {start : ℕ}
    (hlen : ring.buf.length = 16384) (hholds : Rings.Holds 0 ring.buf stream)
    (hr : r.toNat = start) (havail : avail.toNat = stream.length - start)
    (hstart : start ≤ stream.length) (hleft : stream.length ≤ start + 16384)
    (hroom : stream.length < 2 ^ 63) (hnone : avail.toNat = 0 → ring.readPos = r)
    {out : List Int16} (hout : out ≠ []) {samples : List Int16}
    (hsamples : samples = (stream.drop start).take out.length) :
    ∃ ring', ring.readFrom r avail out =
        some (ring', samples ++ out.drop samples.length, samples.length) ∧
      ring'.buf = ring.buf ∧ ring'.writePos = ring.writePos ∧
      ring'.readPos.toNat = start + samples.length ∧ ring'.overflowCount = ring.overflowCount := by
  have hcount : min out.length avail.toNat = samples.length := by
    rw [hsamples, List.length_take, List.length_drop, havail]
  have hpos : 0 < out.length := List.length_pos_iff.mpr hout
  rw [readFrom, hcount]
  split
  · next hzero =>
    have hkeep : ring.readPos.toNat = start + samples.length := by
      rw [hnone (by omega), hr, hzero, Nat.add_zero]
    have hempty : samples = [] := List.length_eq_zero_iff.mp hzero
    rw [hempty] at hkeep ⊢
    split
    · exact ⟨_, rfl, rfl, rfl, hkeep, rfl⟩
    · exact ⟨_, rfl, rfl, rfl, hkeep, rfl⟩
  · have hle : start + samples.length ≤ stream.length := by omega
    have hload : loadFrom ring.buf r 0 samples.length = some samples := by
      have htake : (stream.drop start).take samples.length = samples := by
        rw [hsamples, List.take_eq_take_iff, List.length_take]
        omega
      have hread := hholds.read (r := start) (by omega) hle
      rw [loadFrom_eq hr hlen _ (by omega), Nat.add_zero, hread, htake]
    rw [hload]
    refine ⟨_, rfl, rfl, rfl, ?_, rfl⟩
    change (r + UInt64.ofNat samples.length).toNat = _
    rw [UInt64.toNat_add, hr, UInt64.toNat_ofNat', Nat.add_mod_mod, Nat.mod_eq_of_lt (by omega)]

/-- The positions of a read come after those of the reads before it. -/
theorem Follows.after_read (h : Follows ring queue) {out : List Int16}
    {ring' : AudioRing} (hbuf : ring'.buf = ring.buf) (hwrite : ring'.writePos = ring.writePos)
    (hread : ring'.readPos.toNat = queue.start +
      ((queue.written.drop queue.start).take out.length).length)
    (hoverflow : ring'.overflowCount.toNat =
      queue.skips + if queue.next < queue.start then 1 else 0) :
    Follows ring' (queue.call (.read out)).1 := by
  have hnext := h.next_le
  have hskips := h.skips_le
  have hstart : queue.next ≤ queue.start := Nat.le_max_left _ _
  have hlast : queue.start ≤ queue.written.length := by
    rw [LossyQueue.start]
    omega
  have hlen : ((queue.written.drop queue.start).take out.length).length =
      min out.length (queue.written.length - queue.start) := by
    rw [List.length_take, List.length_drop]
  exact
    { length_eq := by rw [hbuf, h.length_eq]
      holds := hbuf ▸ h.holds
      writePos := by rw [hwrite, h.writePos]; rfl
      readPos := hread
      next_le := by
        change queue.start + _ ≤ queue.written.length
        omega
      overflowCount := hoverflow
      skips_le := by
        change (queue.skips + if queue.next < queue.start then 1 else 0) ≤ queue.start + _
        split <;> omega
      returned_lt := by
        intro position hmem
        change position < queue.start + _
        rcases List.mem_append.mp hmem with hold | hnew
        · have hlt := h.returned_lt position hold
          omega
        · exact (List.mem_range'_1.mp hnew).2
      returned_increasing := by
        apply List.pairwise_append.mpr
        refine ⟨h.returned_increasing, List.pairwise_lt_range' 1, ?_⟩
        intro position hold position' hnew
        have hlt := h.returned_lt position hold
        have hge := (List.mem_range'_1.mp hnew).1
        omega }

theorem Follows.read (h : Follows ring queue) (hroom : queue.written.length < 2 ^ 63)
    {out : List Int16} (hout : out ≠ []) :
    ∃ ring', ring.call (.read out) = some (ring', (queue.call (.read out)).2) ∧
      Follows ring' (queue.call (.read out)).1 := by
  have hnext := h.next_le
  have hskips := h.skips_le
  have hunread := h.unread
  have hcap := ringCapacity_toNat
  by_cases hlap : ring.writePos - ring.readPos > ringCapacity
  · -- the producer is more than a ring ahead
    have hlapped : 16384 < queue.written.length - queue.next := by
      have hlt := UInt64.lt_iff_toNat_lt.mp hlap
      omega
    have hstart : queue.start = queue.written.length - 16384 := by
      rw [LossyQueue.start, hcap]
      omega
    have holdest : (ring.writePos - ringCapacity).toNat = queue.start := by
      have hle : ringCapacity ≤ ring.writePos := by
        rw [UInt64.le_iff_toNat_le, hcap, h.writePos]
        omega
      rw [UInt64.toNat_sub_of_le _ _ hle, h.writePos, hcap, hstart]
    obtain ⟨ring', hfrom, hbuf, hwrite, hread, hoverflow⟩ :=
      readFrom_eq { ring with overflowCount := ring.overflowCount + 1 } h.length_eq h.holds holdest
        (by omega : ringCapacity.toNat = _) (by omega) (by omega) hroom (by omega) hout rfl
    refine ⟨ring', ?_, h.after_read hbuf hwrite hread ?_⟩
    · rw [call, AudioRing.read, if_pos hlap, hfrom]
      rfl
    · rw [hoverflow, if_pos (by omega), UInt64.toNat_add, h.overflowCount, UInt64.toNat_one,
        Nat.mod_eq_of_lt (by omega)]
  · have hleft : queue.written.length - queue.next ≤ 16384 := by
      have hle := UInt64.le_iff_toNat_le.mp (UInt64.not_lt.mp hlap)
      omega
    have hstart : queue.start = queue.next := by
      rw [LossyQueue.start, hcap]
      omega
    obtain ⟨ring', hfrom, hbuf, hwrite, hread, hoverflow⟩ :=
      readFrom_eq ring h.length_eq h.holds (h.readPos.trans hstart.symm) (by rw [hunread, hstart])
        (by omega) (by omega) hroom (fun _ => rfl) hout rfl
    refine ⟨ring', ?_, h.after_read hbuf hwrite hread ?_⟩
    · rw [call, AudioRing.read, if_neg hlap, hfrom]
      rfl
    · rw [hoverflow, h.overflowCount, if_neg (by omega), Nat.add_zero]

/-! ## Every sequence of calls -/

/-- Reads ask for a sample, and the positions stay far from the end of their word. -/
def Fits (queue : LossyQueue) (c : AudioCall) : Prop :=
  c ≠ .read [] ∧ (queue.call c).1.written.length < 2 ^ 63

theorem Follows.call (h : Follows ring queue) {c : AudioCall} (hfits : Fits queue c) :
    ∃ ring', ring.call c = some (ring', (queue.call c).2) ∧ Follows ring' (queue.call c).1 := by
  cases c with
  | write samples => exact h.write samples (List.length_append ▸ hfits.2)
  | read out =>
      have hout : out ≠ [] := by
        rintro rfl
        exact hfits.1 rfl
      exact h.read hfits.2 hout

theorem written_call (c : AudioCall) : (queue.call c).1.written = queue.written ++ c.written := by
  cases c with
  | write samples => rfl
  | read out => exact (List.append_nil _).symm

theorem written_calls (queue : LossyQueue) (calls : List AudioCall) :
    (specAnswers LossyQueue.call queue calls).1.written =
      queue.written ++ calls.flatMap AudioCall.written := by
  induction calls generalizing queue with
  | nil => exact (List.append_nil _).symm
  | cons c rest ih =>
      rw [List.flatMap_cons, ← List.append_assoc, ← written_call]
      exact ih _

theorem eachStep_fits (queue : LossyQueue) {calls : List AudioCall} (hread : AudioCall.read [] ∉ calls)
    (htotal : queue.written.length + (calls.flatMap AudioCall.written).length < 2 ^ 63) :
    EachStep (fun queue c => (LossyQueue.call queue c).1) Fits queue calls := by
  induction calls generalizing queue with
  | nil => trivial
  | cons c rest ih =>
      rw [List.flatMap_cons, List.length_append] at htotal
      have hlen : (queue.call c).1.written.length = queue.written.length + c.written.length := by
        rw [written_call, List.length_append]
      refine ⟨⟨fun hc => hread (hc ▸ List.mem_cons_self), by omega⟩, ?_⟩
      apply ih _ fun hmem => hread (List.mem_cons_of_mem c hmem)
      change (queue.call c).1.written.length + _ < _
      omega

/-- The ring answers as the queue does, which never returns a position twice. -/
theorem lossy_queue {calls : List AudioCall} (hread : AudioCall.read [] ∉ calls)
    (htotal : (calls.flatMap AudioCall.written).length < 2 ^ 63) :
    ∃ ring, answers AudioRing.call new calls =
        some (ring, (specAnswers LossyQueue.call .empty calls).2) ∧
      (specAnswers LossyQueue.call .empty calls).1.written = calls.flatMap AudioCall.written ∧
      (specAnswers LossyQueue.call .empty calls).1.returned.Pairwise (· < ·) ∧
      (∀ out : List Int16, ringCapacity.toNat ≤ out.length →
        ∃ ring' filled, ring.call (.read out) = some (ring', .filled filled ring.available.toNat)) ∧
      ring.overflowCount.toNat = (specAnswers LossyQueue.call .empty calls).1.skips := by
  have hfits := eachStep_fits .empty hread ((Nat.zero_add _).trans_lt htotal)
  have hwritten := written_calls .empty calls
  obtain ⟨ring, hanswers, hfollows⟩ :=
    answers_refine (R := Follows) (fun _ _ c h hc => h.call (c := c) hc) follows_new hfits
  refine ⟨ring, hanswers, hwritten, hfollows.returned_increasing, ?_, hfollows.overflowCount⟩
  intro out hout
  have hroom : (specAnswers LossyQueue.call .empty calls).1.written.length < 2 ^ 63 :=
    hwritten ▸ htotal
  have hpos : out ≠ [] := by
    rintro rfl
    exact Nat.not_succ_le_zero _ hout
  obtain ⟨ring', hcall, -⟩ := hfollows.read hroom hpos
  rw [hfollows.available_eq, ← LossyQueue.large_read hout]
  exact ⟨ring', _, hcall⟩

/-- The producer is two samples more than a ring ahead of the first read, and these are skipped. -/
theorem lapped_reads :
    ∃ ring, answers AudioRing.call new
        [.write (List.replicate 16384 1), .write [2, 3], .read [0, 0], .read [0]] =
          some (ring, [.wrote 16384, .wrote 2, .filled [1, 1] 2, .filled [1] 1]) ∧
      ring.overflowCount.toNat = 1 := by
  have hlength : (List.replicate 16384 (1 : Int16)).length = 16384 := List.length_replicate
  have hfirst : ((List.replicate 16384 (1 : Int16)).drop 2).take 2 = [1, 1] := by
    rw [List.drop_replicate, List.take_replicate]
    rfl
  have hsecond : ((List.replicate 16384 (1 : Int16)).drop 4).take 1 = [1] := by
    rw [List.drop_replicate, List.take_replicate]
    rfl
  generalize List.replicate 16384 (1 : Int16) = burst at *
  have hall : burst.take 16384 = burst := List.take_of_length_le hlength.le
  have hkept : ∀ n k, n + k ≤ 16384 →
      ((burst ++ [2, 3]).drop n).take k = (burst.drop n).take k := by
    intro n k hle
    rw [List.drop_append_of_le_length (by omega),
      List.take_append_of_le_length (by rw [List.length_drop]; omega)]
  obtain ⟨ring, hanswers, -, -, -, hskips⟩ :=
    @lossy_queue [.write burst, .write [2, 3], .read [0, 0], .read [0]] (by simp)
      (by simp [AudioCall.written, ringCapacity_toNat, hlength])
  refine ⟨ring, hanswers.trans ?_, hskips.trans ?_⟩
  · simp [specAnswers, LossyQueue.call, LossyQueue.start, LossyQueue.empty, ringCapacity_toNat,
      hlength, hall, hkept, hfirst, hsecond]
  · simp [specAnswers, LossyQueue.call, LossyQueue.start, LossyQueue.empty, ringCapacity_toNat, hlength]

end AudioRing

end Wzp.Client
