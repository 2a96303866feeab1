import Wzp.Lib.Answers
import Wzp.Native.RingBuffer

/-!
# The ring as a bounded queue

The two cursors are those of a stream modulo the capacity. What has been written and not
read is the queue.
-/
namespace Wzp.Native
open Answers

/-! ## Signed cursors -/

theorem asUsize_ofNat {n : ℕ} (h : n < 2 ^ 31) : asUsize (Int32.ofNat n) = n := by
  rw [asUsize, Int32.toInt_ofNat_of_lt h]
  omega

theorem asUsize_of_toInt {x : Int32} {n : ℕ} (h : x.toInt = n) (hn : n < 2 ^ 31) : asUsize x = n := by
  rw [asUsize, h]
  omega

theorem toInt_sub {a b : ℕ} (ha : a < 2 ^ 31) (hb : b < 2 ^ 31) :
    (Int32.ofNat a - Int32.ofNat b).toInt = a - b := by
  rw [Int32.toInt_sub, Int32.toInt_ofNat_of_lt ha, Int32.toInt_ofNat_of_lt hb]
  apply Int.bmod_eq_of_le <;> omega

theorem advance_eq {cap i : ℕ} (h : i < cap) : advance cap i = (i + 1) % cap := by
  unfold advance
  split
  · have hlast : i + 1 = cap := by omega
    rw [hlast, Nat.mod_self]
  · rw [Nat.mod_eq_of_lt (by omega)]

/-! ## The loops -/

/-- No write leaves the buffer, and the cursor ends where the stream does. -/
theorem storeFrom_eq {cap : ℕ} (data : List Int16) {buf : List Int16} (hlen : buf.length = cap)
    {w : ℕ} (hw : w < cap) :
    storeFrom cap buf w data = some (Rings.write buf w data, (w + data.length) % cap) := by
  induction data generalizing buf w with
  | nil => rw [storeFrom, Rings.write, List.length_nil, Nat.add_zero, Nat.mod_eq_of_lt hw]
  | cons x rest ih =>
      have hlen' : (buf.set w x).length = cap := by rw [List.length_set, hlen]
      have hnext : advance cap w < cap := by
        rw [advance_eq hw]
        exact Nat.mod_lt _ (by omega)
      have hmod := Rings.write_mod (buf.set w x) (w + 1) rest
      rw [hlen', ← advance_eq hw] at hmod
      rw [storeFrom, Rings.store, if_pos (by omega), Option.bind_some, ih hlen' hnext, hmod, Rings.write,
        hlen, Nat.mod_eq_of_lt hw, advance_eq hw, Nat.mod_add_mod, List.length_cons, Nat.add_assoc,
        Nat.add_comm 1]

theorem loadFrom_eq {cap : ℕ} {buf : List Int16} (hlen : buf.length = cap) (n : ℕ) {r : ℕ}
    (hr : r < cap) :
    loadFrom cap buf r n = (Rings.read buf r n).map fun samples => (samples, (r + n) % cap) := by
  induction n generalizing r with
  | zero => rw [loadFrom, Rings.read, Nat.add_zero, Nat.mod_eq_of_lt hr]; rfl
  | succ n ih =>
      have hnext : advance cap r < cap := by
        rw [advance_eq hr]
        exact Nat.mod_lt _ (by omega)
      have hmod := Rings.read_mod buf (r + 1) n
      rw [hlen, ← advance_eq hr] at hmod
      rw [loadFrom, ih hnext, hmod, Rings.read, hlen, Nat.mod_eq_of_lt hr, advance_eq hr,
        Nat.mod_add_mod, Nat.add_assoc, Nat.add_comm 1]
      cases buf[r]? with
      | none => rfl
      | some x => cases Rings.read buf (r + 1) n <;> rfl

/-- The ring and the stream that went through it. -/
structure RingView (capacity : ℕ) (rb : RingBuffer) (stream : List Int16) (taken : ℕ) : Prop where
  capacity_eq : rb.capacity = capacity
  length_eq : rb.buf.length = capacity
  holds : Rings.Holds 0 rb.buf stream
  writeIdx : rb.writeIdx = Int32.ofNat (stream.length % capacity)
  readIdx : rb.readIdx = Int32.ofNat (taken % capacity)
  taken_le : taken ≤ stream.length
  room : stream.length < taken + capacity

variable {capacity : ℕ} {rb : RingBuffer} {stream : List Int16} {taken : ℕ}

theorem ringView_new (h : 0 < capacity) : RingView capacity (.new capacity) [] 0 where
  capacity_eq := rfl
  length_eq := List.length_replicate
  holds := Rings.holds_nil capacity 0
  writeIdx := by
    rw [List.length_nil, Nat.zero_mod]
    rfl
  readIdx := by
    rw [Nat.zero_mod]
    rfl
  taken_le := Nat.le_refl 0
  room := by
    rw [List.length_nil, Nat.zero_add]
    exact h

section
variable (hcap : capacity < 2 ^ 31) (h : RingView capacity rb stream taken)
include hcap h

theorem cursors_lt : stream.length % capacity < capacity ∧ taken % capacity < capacity := by
  have hpos : 0 < capacity := by
    have := h.taken_le
    have := h.room
    omega
  exact ⟨Nat.mod_lt _ hpos, Nat.mod_lt _ hpos⟩

theorem availableRead_eq : rb.availableRead = stream.length - taken := by
  obtain ⟨hw, hr⟩ := cursors_lt hcap h
  have hdiff : (rb.writeIdx - rb.readIdx).toInt =
      (stream.length % capacity : ℕ) - (taken % capacity : ℕ) := by
    rw [h.writeIdx, h.readIdx]
    exact toInt_sub (by omega) (by omega)
  have hcases := Rings.mod_cases h.taken_le h.room
  have htaken := h.taken_le
  have hroom := h.room
  rw [RingBuffer.availableRead]
  by_cases hneg : rb.writeIdx - rb.readIdx < 0
  · rw [if_pos hneg]
    rw [Int32.lt_iff_toInt_lt, hdiff, Int32.toInt_zero] at hneg
    apply asUsize_of_toInt _ (by omega)
    rw [Int32.toInt_add, hdiff, h.capacity_eq, Int32.toInt_ofNat_of_lt hcap, Int.bmod_eq_of_le] <;>
      omega
  · rw [if_neg hneg]
    rw [Int32.lt_iff_toInt_lt, hdiff, Int32.toInt_zero] at hneg
    apply asUsize_of_toInt _ (by omega)
    rw [hdiff]
    omega

theorem availableWrite_eq : rb.availableWrite = some (capacity - 1 - (stream.length - taken)) := by
  have hroom := h.room
  have htaken := h.taken_le
  rw [RingBuffer.availableWrite, availableRead_eq hcap h, h.capacity_eq, checkedSub,
    if_pos (by omega), Option.bind_some, checkedSub, if_pos (by omega)]

/-! ## One call -/

theorem write_appends (data : List Int16) :
    ∃ rb', rb.write data = some (rb', (data.take (capacity - 1 - (stream.length - taken))).length) ∧
      RingView capacity rb' (stream ++ data.take (capacity - 1 - (stream.length - taken))) taken := by
  obtain ⟨hw, -⟩ := cursors_lt hcap h
  have hroom := h.room
  have htaken := h.taken_le
  set room := capacity - 1 - (stream.length - taken) with hdef
  have hfits : data.take (min data.length room) = data.take room := by
    rw [List.take_eq_take_iff]
    omega
  have hcount : (data.take room).length = min data.length room := by
    rw [List.length_take, Nat.min_comm]
  rw [RingBuffer.write, availableWrite_eq hcap h, Option.bind_some, ← hdef]
  dsimp only
  rw [hfits, ← hcount]
  split
  · -- nothing fits, and nothing moves
    next hnone =>
    rw [List.length_eq_zero_iff.mp hnone, List.append_nil]
    exact ⟨rb, rfl, h⟩
  · next hsome =>
    have hstart : asUsize rb.writeIdx = stream.length % capacity := by
      rw [h.writeIdx]
      exact asUsize_ofNat (by omega)
    have hcell := Rings.write_mod rb.buf stream.length (data.take room)
    rw [h.length_eq] at hcell
    rw [hstart, h.capacity_eq, storeFrom_eq _ h.length_eq hw, hcell, Nat.mod_add_mod]
    refine ⟨_, rfl, ?_⟩
    exact
      { capacity_eq := rfl
        length_eq := by rw [Rings.write_length, h.length_eq]
        holds := h.holds.write _
        writeIdx := by rw [List.length_append]
        readIdx := h.readIdx
        taken_le := by
          rw [List.length_append]
          omega
        room := by
          rw [List.length_append]
          omega }

theorem read_removes (out : List Int16) :
    ∃ rb', rb.read out = some (rb', ((stream.drop taken).take out.length) ++
        out.drop ((stream.drop taken).take out.length).length,
        ((stream.drop taken).take out.length).length) ∧
      RingView capacity rb' stream (taken + ((stream.drop taken).take out.length).length) := by
  obtain ⟨-, hr⟩ := cursors_lt hcap h
  have hroom := h.room
  have htaken := h.taken_le
  have hlen := h.length_eq
  set oldest := (stream.drop taken).take out.length with hdef
  have hcount : min out.length rb.availableRead = oldest.length := by
    rw [availableRead_eq hcap h, hdef, List.length_take, List.length_drop]
  have holdest : (stream.drop taken).take oldest.length = oldest := by
    rw [hdef, List.take_eq_take_iff, List.length_take]
    omega
  have hle : oldest.length ≤ stream.length - taken := by
    rw [hdef, List.length_take, List.length_drop]
    omega
  rw [RingBuffer.read, hcount]
  split
  · next hnone =>
    rw [hnone, List.length_eq_zero_iff.mp hnone]
    exact ⟨rb, rfl, h⟩
  · next hsome =>
    have hstart : asUsize rb.readIdx = taken % capacity := by
      rw [h.readIdx]
      exact asUsize_ofNat (by omega)
    have hcell := Rings.read_mod rb.buf taken oldest.length
    have hload := h.holds.read (r := taken) (n := oldest.length) (by omega) (by omega)
    rw [hlen, hload, holdest] at hcell
    rw [hstart, h.capacity_eq, loadFrom_eq hlen _ hr, hcell, Nat.mod_add_mod]
    refine ⟨_, rfl, ?_⟩
    exact
      { capacity_eq := rfl
        length_eq := hlen
        holds := h.holds
        writeIdx := h.writeIdx
        readIdx := rfl
        taken_le := by omega
        room := by omega }

end

/-! ## Every sequence of calls -/

theorem cursor_toInt {n : ℕ} (hn : n < capacity) (hcap : capacity < 2 ^ 31) :
    0 ≤ (Int32.ofNat n).toInt ∧ (Int32.ofNat n).toInt < capacity := by
  rw [Int32.toInt_ofNat_of_lt (by omega)]
  omega

/-- The queue is what has not been read of the stream. -/
def Queues (capacity : ℕ) (rb : RingBuffer) (queue : List Int16) : Prop :=
  ∃ stream taken, RingView capacity rb stream taken ∧ queue = stream.drop taken

theorem call_queues (hcap : capacity < 2 ^ 31) {queue : List Int16}
    (h : Queues capacity rb queue) (call : RingCall) :
    ∃ rb', rb.call call = some (rb', (queueCall (capacity - 1) queue call).2) ∧
      Queues capacity rb' (queueCall (capacity - 1) queue call).1 := by
  obtain ⟨stream, taken, hview, rfl⟩ := h
  have htaken := hview.taken_le
  cases call with
  | write data =>
      obtain ⟨rb', hwrite, hview'⟩ := write_appends hcap hview data
      refine ⟨rb', ?_, _, taken, hview', ?_⟩
      · rw [RingBuffer.call, hwrite, queueCall, List.length_drop]
        rfl
      · rw [queueCall, List.length_drop, List.drop_append_of_le_length htaken]
  | read out =>
      obtain ⟨rb', hread, hview'⟩ := read_removes hcap hview out
      refine ⟨rb', ?_, stream, _, hview', ?_⟩
      · rw [RingBuffer.call, hread]
        rfl
      · rw [queueCall, List.drop_drop, List.length_take, List.length_drop, List.drop_eq_drop_iff]
        omega

/-- The ring answers every sequence of calls as the queue does, and no access leaves it. -/
theorem RingBuffer.bounded_queue (hpos : 2 ≤ capacity) (hcap : capacity < 2 ^ 31)
    (calls : List RingCall) :
    ∃ rb, answers RingBuffer.call (.new capacity) calls =
        some (rb, (specAnswers (queueCall (capacity - 1)) [] calls).2) ∧
      (specAnswers (queueCall (capacity - 1)) [] calls).1.length ≤ capacity - 1 ∧
      (0 ≤ rb.writeIdx.toInt ∧ rb.writeIdx.toInt < capacity) ∧
      (0 ≤ rb.readIdx.toInt ∧ rb.readIdx.toInt < capacity) ∧
      rb.availableRead = (specAnswers (queueCall (capacity - 1)) [] calls).1.length ∧
      ∃ room, rb.availableWrite = some room ∧ rb.availableRead + room = capacity - 1 := by
  have hnew : Queues capacity (.new capacity) [] := ⟨[], 0, ringView_new (by omega), rfl⟩
  obtain ⟨rb, hanswers, stream, taken, hview, hqueue⟩ :=
    answers_refine_all (R := Queues capacity) (fun rb queue call h => call_queues hcap h call)
      hnew calls
  obtain ⟨hw, hr⟩ := cursors_lt hcap hview
  have hroom := hview.room
  have htaken := hview.taken_le
  have hread := availableRead_eq hcap hview
  refine ⟨rb, hanswers, ?_, ?_, ?_, ?_, _, availableWrite_eq hcap hview, ?_⟩
  · rw [hqueue, List.length_drop]
    omega
  · rw [hview.writeIdx]
    exact cursor_toInt hw hcap
  · rw [hview.readIdx]
    exact cursor_toInt hr hcap
  · rw [hqueue, List.length_drop, hread]
  · omega

/-- Three cells hold two samples, and the cursors pass the end of the buffer. -/
theorem RingBuffer.holds_two :
    ∃ rb, answers RingBuffer.call (.new 3)
        [.write [1, 2, 3], .read [0], .write [4, 5], .read [0, 0, 0]] =
        some (rb, [.wrote 2, .filled [1] 1, .wrote 1, .filled [2, 4, 0] 2]) ∧
      rb.availableRead = 0 := by
  obtain ⟨rb, hanswers, -, -, -, hread, -⟩ :=
    RingBuffer.bounded_queue (by decide : 2 ≤ 3) (by decide)
      [.write [1, 2, 3], .read [0], .write [4, 5], .read [0, 0, 0]]
  exact ⟨rb, hanswers, hread⟩

end Wzp.Native
