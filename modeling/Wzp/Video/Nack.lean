import Mathlib.Algebra.Group.Nat.Defs
import Mathlib.Data.List.Sort
import Wzp.Lib.Runs
import Wzp.Lib.Table

/-!
# Missing packets asked for again

The receiver expects the packets of a stream in the order of their numbers, remembers
the numbers that were passed over, and asks for them when they have not come in time.
Times are in nanoseconds.
-/
namespace Wzp.Video
open Runs

inductive NackAction where
  | nack (seqs : List UInt32)
  | pictureLossIndication
  deriving DecidableEq, Repr

structure NackReceiver where
  frameInterval : ℕ
  rtt : ℕ
  missing : Table UInt32 ℕ
  lastNack : Table UInt32 ℕ
  nextExpected : UInt32
  nacksThisSec : ℕ
  secWindow : ℕ
  maxNackRate : ℕ

namespace NackReceiver

def defaultMaxNackRate : ℕ := 50

def new (frameInterval rtt now : ℕ) : NackReceiver :=
  ⟨frameInterval, rtt, ∅, ∅, 0, 0, now, defaultMaxNackRate⟩

def setRtt (self : NackReceiver) (rtt : ℕ) : NackReceiver := { self with rtt }

/-- The NACKs of a second are counted from its first packet or tick. -/
def advanceWindow (self : NackReceiver) (now : ℕ) : NackReceiver :=
  if 1000000000 ≤ now - self.secWindow then { self with secWindow := now, nacksThisSec := 0 }
  else self

/-- The numbers from `first` on, `count` of them, are missing. -/
def noteMissing (missing : Table UInt32 ℕ) (first : UInt32) (count now : ℕ) : Table UInt32 ℕ :=
  (List.range count).foldl (fun t offset => t.orInsert (first + UInt32.ofNat offset) now) missing

def onPacket (self : NackReceiver) (seq : UInt32) (now : ℕ) : NackReceiver :=
  let self := self.advanceWindow now
  let ahead := seq - self.nextExpected
  if ahead = 0 then
    { self with
      nextExpected := self.nextExpected + 1
      missing := self.missing.erase seq
      lastNack := self.lastNack.erase seq }
  else if ahead < 0xFFFFFFFF / 2 then
    { self with
      nextExpected := seq + 1
      missing := (noteMissing self.missing self.nextExpected ahead.toNat now).erase seq
      lastNack := self.lastNack.erase seq }
  else { self with missing := self.missing.erase seq, lastNack := self.lastNack.erase seq }

/-- The missing numbers whose time has come, in ascending order. -/
def nackSeqs (self : NackReceiver) (now : ℕ) : List UInt32 :=
  (self.missing.keys.insertionSort (· ≤ ·)).filter fun seq =>
    (self.missing.lookup seq).any (fun noticedAt => self.frameInterval ≤ now - noticedAt) &&
      (self.lastNack.lookup seq).all fun lastNackTime => 2 * self.rtt ≤ now - lastNackTime

def tick (self : NackReceiver) (now : ℕ) : NackReceiver × List NackAction :=
  let self := self.advanceWindow now
  let seqs := self.nackSeqs now
  if seqs.isEmpty then (self, [])
  else if self.rtt < 2 * self.frameInterval then
    let budget := self.maxNackRate - self.nacksThisSec
    if budget = 0 then (self, [.pictureLossIndication])
    else
      let seqs := seqs.take budget
      ({ self with
        nacksThisSec := self.nacksThisSec + seqs.length
        lastNack := seqs.foldl (fun t seq => t.insert seq now) self.lastNack }, [.nack seqs])
  else (self, [.pictureLossIndication])

end NackReceiver

/-! ## The numbers of a stream -/

/-- The number of the packet, in a stream that starts at `s0`. -/
def seqOf (s0 : UInt32) (index : ℕ) : UInt32 := s0 + UInt32.ofNat index

theorem seqOf_add (s0 : UInt32) (index offset : ℕ) :
    seqOf s0 index + UInt32.ofNat offset = seqOf s0 (index + offset) := by
  rw [seqOf, seqOf, UInt32.ofNat_add, UInt32.add_assoc]

theorem toNat_seqOf (s0 : UInt32) (index : ℕ) :
    (seqOf s0 index).toNat = (s0.toNat + index) % 2 ^ 32 := by
  rw [seqOf, UInt32.toNat_add, UInt32.toNat_ofNat', Nat.add_mod_mod]

/-- How far a packet is ahead of another, the numbers starting anew after the last. -/
theorem toNat_seqOf_sub (s0 : UInt32) {i n : ℕ} (hn : n ≤ i + 2 ^ 32) :
    (seqOf s0 i - seqOf s0 n).toNat = (i + 2 ^ 32 - n) % 2 ^ 32 := by
  rw [UInt32.toNat_sub, toNat_seqOf, toNat_seqOf]
  omega

theorem seqOf_ne {s0 : UInt32} {i j : ℕ} (hne : i ≠ j) (hi : i < j + 2 ^ 32)
    (hj : j < i + 2 ^ 32) : seqOf s0 i ≠ seqOf s0 j := by
  intro h
  have hnat := congrArg UInt32.toNat h
  rw [toNat_seqOf, toNat_seqOf] at hnat
  omega

namespace NackReceiver

/-! ### What a packet changes -/

variable {r : NackReceiver} {now : ℕ} {seq : UInt32}

theorem missing_advanceWindow (r : NackReceiver) (now : ℕ) :
    (r.advanceWindow now).missing = r.missing := by
  unfold advanceWindow
  split <;> rfl

theorem lastNack_advanceWindow (r : NackReceiver) (now : ℕ) :
    (r.advanceWindow now).lastNack = r.lastNack := by
  unfold advanceWindow
  split <;> rfl

theorem nextExpected_advanceWindow (r : NackReceiver) (now : ℕ) :
    (r.advanceWindow now).nextExpected = r.nextExpected := by
  unfold advanceWindow
  split <;> rfl

theorem lookup_noteMissing (missing : Table UInt32 ℕ) (first : UInt32) (count now : ℕ) :
    (noteMissing missing first count now).lookup seq =
      if ∃ offset < count, first + UInt32.ofNat offset = seq
      then some ((missing.lookup seq).getD now) else missing.lookup seq := by
  have hmap : noteMissing missing first count now =
      ((List.range count).map fun offset => first + UInt32.ofNat offset).foldl
        (fun t k => t.orInsert k now) missing := by
    rw [List.foldl_map]
    rfl
  have hmem : seq ∈ ((List.range count).map fun offset => first + UInt32.ofNat offset) ↔
      ∃ offset < count, first + UInt32.ofNat offset = seq := by
    rw [List.mem_map]
    exact exists_congr fun offset => and_congr_left' List.mem_range
  rw [hmap, Table.lookup_foldl_orInsert]
  exact if_congr hmem rfl rfl

theorem lastNack_onPacket (r : NackReceiver) (seq : UInt32) (now : ℕ) :
    (r.onPacket seq now).lastNack = r.lastNack.erase seq := by
  unfold onPacket
  dsimp only
  split
  · exact congrArg (Table.erase · seq) (lastNack_advanceWindow r now)
  · split <;> exact congrArg (Table.erase · seq) (lastNack_advanceWindow r now)

/-- A packet that is expected or ahead: all numbers from the expected one on are missing. -/
theorem onPacket_ahead {s0 : UInt32} {n i : ℕ} (hnext : r.nextExpected = seqOf s0 n) (hni : n ≤ i)
    (hnear : i + 1 < n + 2 ^ 31) :
    (r.onPacket (seqOf s0 i) now).nextExpected = seqOf s0 (i + 1) ∧
      (r.onPacket (seqOf s0 i) now).missing =
        (noteMissing r.missing (seqOf s0 n) (i - n) now).erase (seqOf s0 i) := by
  have hahead : (seqOf s0 i - seqOf s0 n).toNat = i - n := by
    rw [toNat_seqOf_sub s0 (by omega)]
    omega
  have hsucc : seqOf s0 i + 1 = seqOf s0 (i + 1) := seqOf_add s0 i 1
  unfold onPacket
  dsimp only
  rw [nextExpected_advanceWindow, missing_advanceWindow, hnext]
  by_cases heq : n = i
  · subst heq
    rw [if_pos (UInt32.sub_self _), Nat.sub_self]
    exact ⟨hsucc, rfl⟩
  · have hne : seqOf s0 i - seqOf s0 n ≠ 0 := by
      intro h
      rw [h, UInt32.toNat_zero] at hahead
      omega
    have hlt : seqOf s0 i - seqOf s0 n < 0xFFFFFFFF / 2 := by
      rw [UInt32.lt_iff_toNat_lt, hahead]
      change i - n < 2147483647
      omega
    rw [if_neg hne, if_pos hlt, hahead]
    exact ⟨hsucc, rfl⟩

/-- A packet that counts as late is no longer missing, and that is all. -/
theorem onPacket_late (hlate : 0xFFFFFFFF / 2 ≤ seq - r.nextExpected) :
    (r.onPacket seq now).nextExpected = r.nextExpected ∧
      (r.onPacket seq now).missing = r.missing.erase seq := by
  have hne : seq - r.nextExpected ≠ 0 := by
    intro h
    rw [h] at hlate
    exact absurd hlate (by decide)
  have hge : ¬ seq - r.nextExpected < 0xFFFFFFFF / 2 := UInt32.not_lt.mpr hlate
  unfold onPacket
  dsimp only
  rw [nextExpected_advanceWindow, missing_advanceWindow, if_neg hne, if_neg hge]
  exact ⟨rfl, rfl⟩

/-! ### What a tick asks for -/

theorem mem_nackSeqs : seq ∈ r.nackSeqs now ↔ ∃ noticedAt, r.missing.lookup seq = some noticedAt ∧
    r.frameInterval ≤ now - noticedAt ∧
      ∀ lastNackTime, r.lastNack.lookup seq = some lastNackTime → 2 * r.rtt ≤ now - lastNackTime := by
  rw [nackSeqs, List.mem_filter, List.mem_insertionSort, Bool.and_eq_true, Option.any_eq_true,
    Option.all_eq_true]
  constructor
  · rintro ⟨-, ⟨noticedAt, hnoticed, hold⟩, hbackoff⟩
    exact ⟨noticedAt, hnoticed, of_decide_eq_true hold, fun t ht =>
      of_decide_eq_true (hbackoff t ht)⟩
  · rintro ⟨noticedAt, hnoticed, hold, hbackoff⟩
    refine ⟨AList.lookup_isSome.mp (hnoticed ▸ rfl), ⟨noticedAt, hnoticed, decide_eq_true hold⟩,
      fun t ht => decide_eq_true (hbackoff t ht)⟩

theorem nackSeqs_advanceWindow (r : NackReceiver) (now now' : ℕ) :
    (r.advanceWindow now').nackSeqs now = r.nackSeqs now := by
  unfold advanceWindow
  split <;> rfl

end NackReceiver

/-- The numbers that are asked for. -/
def nackedSeqs (actions : List NackAction) : List UInt32 :=
  actions.flatMap fun action =>
    match action with
    | .nack seqs => seqs
    | .pictureLossIndication => []

namespace NackReceiver
variable {r : NackReceiver} {now : ℕ} {seq : UInt32}

/-- The ways of a tick: nothing is due, or some of what is due is asked for, or a new
picture. -/
inductive Ticked (r : NackReceiver) (now : ℕ) : NackReceiver × List NackAction → Prop where
  | quiet (h : r.nackSeqs now = []) : Ticked r now (r.advanceWindow now, [])
  | nack (seqs : List UInt32) (count : ℕ) (h : seqs ⊆ r.nackSeqs now) :
      Ticked r now ({ r.advanceWindow now with
        nacksThisSec := count
        lastNack := seqs.foldl (fun t seq => t.insert seq now) r.lastNack }, [.nack seqs])
  | pictureLoss : Ticked r now (r.advanceWindow now, [.pictureLossIndication])

theorem ticked (r : NackReceiver) (now : ℕ) : Ticked r now (r.tick now) := by
  unfold tick
  dsimp only
  rw [nackSeqs_advanceWindow, lastNack_advanceWindow]
  split
  · rename_i hempty
    exact .quiet (List.isEmpty_iff.mp hempty)
  · split
    · split
      · exact .pictureLoss
      · exact .nack _ _ (List.take_subset _ _)
    · exact .pictureLoss

theorem subset_nackSeqs (h : seq ∈ nackedSeqs (r.tick now).2) : seq ∈ r.nackSeqs now := by
  have hticked := ticked r now
  generalize r.tick now = result at h hticked
  cases hticked with
  | quiet => exact absurd h List.not_mem_nil
  | nack seqs count hsubset =>
      rw [nackedSeqs, List.flatMap_singleton] at h
      exact hsubset h
  | pictureLoss => exact absurd h List.not_mem_nil

theorem tick_ne_nil (h : r.nackSeqs now ≠ []) : (r.tick now).2 ≠ [] := by
  have hticked := ticked r now
  generalize r.tick now = result at hticked
  cases hticked with
  | quiet hquiet => exact absurd hquiet h
  | nack => exact List.cons_ne_nil _ _
  | pictureLoss => exact List.cons_ne_nil _ _

/-- A tick changes only when something was last asked for. -/
theorem tick_keeps (r : NackReceiver) (now : ℕ) :
    (r.tick now).1.nextExpected = r.nextExpected ∧ (r.tick now).1.missing = r.missing ∧
      ∀ seq, (r.tick now).1.lastNack.lookup seq =
        if seq ∈ nackedSeqs (r.tick now).2 then some now else r.lastNack.lookup seq := by
  have hnext := nextExpected_advanceWindow r now
  have hmissing := missing_advanceWindow r now
  have hlast := lastNack_advanceWindow r now
  have hticked := ticked r now
  generalize r.tick now = result at hticked ⊢
  cases hticked with
  | quiet => exact ⟨hnext, hmissing, fun seq => by rw [hlast]; exact (if_neg List.not_mem_nil).symm⟩
  | nack seqs count =>
      refine ⟨hnext, hmissing, fun seq => ?_⟩
      rw [nackedSeqs, List.flatMap_singleton]
      exact Table.lookup_foldl_insert seqs
  | pictureLoss =>
      exact ⟨hnext, hmissing, fun seq => by rw [hlast]; exact (if_neg List.not_mem_nil).symm⟩

end NackReceiver

/-! ## A stream and its receiver -/

inductive NackEvent where
  | packet (index now : ℕ)
  | tick (now : ℕ)
  | setRtt (rtt : ℕ)

/-- A receiver, the packets it got and when, what it asked for and when, and the time. -/
structure NackRun where
  receiver : NackReceiver
  arrivals : List (ℕ × ℕ)
  nacked : List (UInt32 × ℕ)
  clock : ℕ

namespace NackRun

def start (frameInterval rtt now : ℕ) : NackRun := ⟨.new frameInterval rtt now, [], [], now⟩

def step (s0 : UInt32) (s : NackRun) : NackEvent → NackRun
  | .packet index now =>
      { s with
        receiver := s.receiver.onPacket (seqOf s0 index) now
        arrivals := (index, now) :: s.arrivals
        clock := now }
  | .tick now =>
      { s with
        receiver := (s.receiver.tick now).1
        nacked := (nackedSeqs (s.receiver.tick now).2).map (·, now) ++ s.nacked
        clock := now }
  | .setRtt rtt => { s with receiver := s.receiver.setRtt rtt }

/-- The packet is missing since the time `t`, when a later one came: none with its number
has come since, and only earlier ones before. -/
def OpenSince (s0 : UInt32) (index t : ℕ) : List (ℕ × ℕ) → Prop
  | [] => False
  | a :: earlier => (index < a.1 ∧ a.2 = t ∧ ∀ b ∈ earlier, b.1 < index) ∨
      (OpenSince s0 index t earlier ∧ seqOf s0 a.1 ≠ seqOf s0 index)

/-- Only what was sent and is missing is asked for, and nothing that is due is forgotten. -/
structure Right (s0 : UInt32) (s : NackRun) (e : NackEvent) : Prop where
  genuine : ∀ now, e = .tick now → ∀ seq ∈ nackedSeqs (s.receiver.tick now).2,
    ∃ index, seqOf s0 index = seq ∧ (∃ a ∈ s.arrivals, index < a.1) ∧
      ∀ a ∈ s.arrivals, a.1 ≠ index
  prompt : ∀ now, e = .tick now → ∀ index t, OpenSince s0 index t s.arrivals →
    s.receiver.frameInterval ≤ now - t →
    (∀ n ∈ s.nacked, n.1 = seqOf s0 index → 2 * s.receiver.rtt ≤ now - n.2) →
    (s.receiver.tick now).2 ≠ []

/-- One more than the highest of the packets that came. -/
def next (s : NackRun) : ℕ := s.arrivals.foldr (fun a n => max (a.1 + 1) n) 0

/-- The receiver expects the packet that the stream has next. -/
def InStep (s0 : UInt32) (s : NackRun) : Prop := s.receiver.nextExpected = seqOf s0 s.next

/-- Time does not go back, and a packet that leaves a gap or comes after one is counted
from the stream's own next number; any other counts as late. -/
def Proper (s0 : UInt32) (s : NackRun) : NackEvent → Prop
  | .packet index now => s.clock ≤ now ∧
      (InStep s0 s ∧ s.next ≤ index ∧ index + 1 < s.next + 2 ^ 31 ∨
        index ≤ s.next ∧ 0xFFFFFFFF / 2 ≤ seqOf s0 index - s.receiver.nextExpected)
  | .tick now => s.clock ≤ now
  | .setRtt _ => True

instance Proper.decidable (s0 : UInt32) (s : NackRun) (e : NackEvent) :
    Decidable (Proper s0 s e) :=
  match e with
  | .packet index now => inferInstanceAs (Decidable (s.clock ≤ now ∧
      (s.receiver.nextExpected = seqOf s0 s.next ∧ s.next ≤ index ∧ index + 1 < s.next + 2 ^ 31 ∨
        index ≤ s.next ∧ 0xFFFFFFFF / 2 ≤ seqOf s0 index - s.receiver.nextExpected)))
  | .tick now => inferInstanceAs (Decidable (s.clock ≤ now))
  | .setRtt _ => inferInstanceAs (Decidable True)

/-! ### What the receiver has of the stream -/

structure Tracks (s0 : UInt32) (s : NackRun) : Prop where
  genuine : ∀ seq t, s.receiver.missing.lookup seq = some t → t ≤ s.clock ∧
    ∃ index < s.next, seqOf s0 index = seq ∧ ∀ a ∈ s.arrivals, a.1 ≠ index
  noticed : ∀ index t, OpenSince s0 index t s.arrivals →
    ∃ t' ≤ t, s.receiver.missing.lookup (seqOf s0 index) = some t'
  backoff : ∀ seq t, s.receiver.lastNack.lookup seq = some t → (seq, t) ∈ s.nacked

variable {s : NackRun} {s0 : UInt32} {index now : ℕ}

theorem tracks_start (s0 : UInt32) (frameInterval rtt now : ℕ) :
    Tracks s0 (start frameInterval rtt now) where
  genuine := fun _ _ h => nomatch (AList.lookup_empty _).symm.trans h
  noticed := fun _ _ h => h.elim
  backoff := fun _ _ h => nomatch (AList.lookup_empty _).symm.trans h

theorem lt_foldr_next (arrivals : List (ℕ × ℕ)) :
    ∀ a ∈ arrivals, a.1 < arrivals.foldr (fun a n => max (a.1 + 1) n) 0 := by
  induction arrivals with
  | nil => exact fun a ha => absurd ha List.not_mem_nil
  | cons b arrivals ih =>
      intro a ha
      rw [List.foldr_cons]
      obtain rfl | ha := List.mem_cons.mp ha
      · exact Nat.lt_of_lt_of_le (Nat.lt_succ_self _) (Nat.le_max_left _ _)
      · exact Nat.lt_of_lt_of_le (ih a ha) (Nat.le_max_right _ _)

theorem foldr_next_le {arrivals : List (ℕ × ℕ)} {bound : ℕ} (h : ∀ a ∈ arrivals, a.1 < bound) :
    arrivals.foldr (fun a n => max (a.1 + 1) n) 0 ≤ bound := by
  induction arrivals with
  | nil => exact Nat.zero_le _
  | cons b arrivals ih =>
      rw [List.foldr_cons]
      exact Nat.max_le.mpr ⟨h b List.mem_cons_self, ih fun a ha => h a (List.mem_cons_of_mem b ha)⟩

/-- Below the next number and not there means before one that is. -/
theorem exists_later (hlt : index < s.next) (hnot : ∀ a ∈ s.arrivals, a.1 ≠ index) :
    ∃ a ∈ s.arrivals, index < a.1 := by
  by_contra hnone
  have hle : s.next ≤ index := foldr_next_le fun a ha =>
    Nat.lt_of_le_of_ne (Nat.le_of_not_lt fun h => hnone ⟨a, ha, h⟩) (hnot a ha)
  omega

/-- A tick is right, as long as the receiver has of the stream what it should. -/
theorem Tracks.right (h : Tracks s0 s) (e : NackEvent) : Right s0 s e where
  genuine := by
    rintro now rfl seq hseq
    obtain ⟨t, hmissing, -, -⟩ := NackReceiver.mem_nackSeqs.mp (NackReceiver.subset_nackSeqs hseq)
    obtain ⟨-, index, hlt, hindex, hnot⟩ := h.genuine seq t hmissing
    exact ⟨index, hindex, exists_later hlt hnot, hnot⟩
  prompt := by
    rintro now rfl index t hopen hold hbackoff
    obtain ⟨t', hle, hmissing⟩ := h.noticed index t hopen
    have hdue : seqOf s0 index ∈ s.receiver.nackSeqs now :=
      NackReceiver.mem_nackSeqs.mpr ⟨t', hmissing, by omega, fun last hlast =>
        hbackoff _ (h.backoff _ _ hlast) rfl⟩
    exact NackReceiver.tick_ne_nil (List.ne_nil_of_mem hdue)

theorem Tracks.tick (h : Tracks s0 s) (hclock : s.clock ≤ now) :
    Tracks s0 (s.step s0 (.tick now)) := by
  obtain ⟨-, hmissing, hlast⟩ := NackReceiver.tick_keeps s.receiver now
  refine ⟨fun seq t ht => ?_, fun index t hopen => ?_, fun seq t ht => ?_⟩
  · obtain ⟨hle, hindex⟩ := h.genuine seq t (hmissing ▸ ht)
    exact ⟨hle.trans hclock, hindex⟩
  · obtain ⟨t', hle, ht'⟩ := h.noticed index t hopen
    exact ⟨t', hle, hmissing ▸ ht'⟩
  · change (s.receiver.tick now).1.lastNack.lookup seq = some t at ht
    change (seq, t) ∈ (nackedSeqs (s.receiver.tick now).2).map (·, now) ++ s.nacked
    rw [hlast] at ht
    split at ht
    · rename_i hmem
      obtain rfl := Option.some.inj ht
      exact List.mem_append_left _ (List.mem_map.mpr ⟨seq, hmem, rfl⟩)
    · exact List.mem_append_right _ (h.backoff seq t ht)

theorem Tracks.backoff_packet (h : Tracks s0 s) (index now : ℕ) {seq : UInt32} {t : ℕ}
    (ht : (s.step s0 (.packet index now)).receiver.lastNack.lookup seq = some t) :
    (seq, t) ∈ s.nacked := by
  change (s.receiver.onPacket (seqOf s0 index) now).lastNack.lookup seq = some t at ht
  rw [NackReceiver.lastNack_onPacket, Table.lookup_erase] at ht
  split at ht
  · exact nomatch ht
  · exact h.backoff seq t ht

/-- A number that is still missing after the packet is genuinely missing. -/
theorem Tracks.genuine_packet (h : Tracks s0 s) (hclock : s.clock ≤ now) {seq : UInt32} {t : ℕ}
    (hne : seq ≠ seqOf s0 index) (ht : s.receiver.missing.lookup seq = some t) :
    t ≤ now ∧ ∃ i < (s.step s0 (.packet index now)).next, seqOf s0 i = seq ∧
      ∀ a ∈ (s.step s0 (.packet index now)).arrivals, a.1 ≠ i := by
  obtain ⟨hle, i, hlt, rfl, hnot⟩ := h.genuine seq t ht
  refine ⟨hle.trans hclock, i, Nat.lt_of_lt_of_le hlt (Nat.le_max_right _ _), rfl, ?_⟩
  rintro a ha rfl
  obtain rfl | ha := List.mem_cons.mp ha
  · exact hne rfl
  · exact hnot a ha rfl

theorem Tracks.late (h : Tracks s0 s) (hle : index ≤ s.next)
    (hlate : 0xFFFFFFFF / 2 ≤ seqOf s0 index - s.receiver.nextExpected) (hclock : s.clock ≤ now) :
    Tracks s0 (s.step s0 (.packet index now)) := by
  obtain ⟨-, hmissing⟩ := @NackReceiver.onPacket_late s.receiver now _ hlate
  have hlookup : ∀ seq, (s.step s0 (.packet index now)).receiver.missing.lookup seq =
      if seq = seqOf s0 index then none else s.receiver.missing.lookup seq := by
    intro seq
    rw [← Table.lookup_erase, ← hmissing]
    rfl
  refine ⟨fun seq t ht => ?_, fun i t hopen => ?_, fun seq t ht => h.backoff_packet index now ht⟩
  · rw [hlookup] at ht
    split at ht
    · exact nomatch ht
    · exact h.genuine_packet hclock ‹_› ht
  · obtain ⟨hi, -, hearlier⟩ | ⟨hopen, hne⟩ := hopen
    · have hle' : s.next ≤ i := foldr_next_le hearlier
      dsimp only at hi
      omega
    · obtain ⟨t', hle', ht'⟩ := h.noticed i t hopen
      exact ⟨t', hle', by rw [hlookup, if_neg (Ne.symm hne), ht']⟩

theorem Tracks.ahead (h : Tracks s0 s) (hstep : InStep s0 s) (hge : s.next ≤ index)
    (hnear : index + 1 < s.next + 2 ^ 31) (hclock : s.clock ≤ now) :
    Tracks s0 (s.step s0 (.packet index now)) := by
  obtain ⟨-, hmissing⟩ := @NackReceiver.onPacket_ahead s.receiver now _ _ _ hstep hge hnear
  have hlookup : ∀ seq, (s.step s0 (.packet index now)).receiver.missing.lookup seq =
      if seq = seqOf s0 index then none
      else if ∃ offset < index - s.next, seqOf s0 s.next + UInt32.ofNat offset = seq
      then some ((s.receiver.missing.lookup seq).getD now) else s.receiver.missing.lookup seq := by
    intro seq
    rw [← NackReceiver.lookup_noteMissing, ← Table.lookup_erase, ← hmissing]
    rfl
  have hnoticed : ∀ seq, (s.receiver.missing.lookup seq).getD now ≤ now := by
    intro seq
    cases hseq : s.receiver.missing.lookup seq with
    | none => exact Nat.le_refl now
    | some t => exact (h.genuine seq t hseq).1.trans hclock
  refine ⟨fun seq t ht => ?_, fun i t hopen => ?_, fun seq t ht => h.backoff_packet index now ht⟩
  · rw [hlookup] at ht
    split at ht
    · exact nomatch ht
    · split at ht
      · rename_i hnew
        obtain ⟨offset, hoffset, hseq⟩ := hnew
        obtain rfl := Option.some.inj ht
        have hlater : s.next + offset < max (index + 1) s.next :=
          Nat.lt_of_lt_of_le (by omega) (Nat.le_max_left _ _)
        refine ⟨hnoticed seq, s.next + offset, hlater, (seqOf_add _ _ _).symm.trans hseq, ?_⟩
        intro a ha heq
        obtain rfl | ha := List.mem_cons.mp ha
        · dsimp only at heq
          omega
        · have hbelow : a.1 < s.next := lt_foldr_next s.arrivals a ha
          omega
      · exact h.genuine_packet hclock ‹_› ht
  · -- a gap is noticed with the first packet after it, and stays until its number comes
    rw [hlookup]
    obtain ⟨hi, rfl, hearlier⟩ | ⟨hopen, hne⟩ := hopen
    · have hle : s.next ≤ i := foldr_next_le hearlier
      dsimp only at hi
      have hgap : ∃ offset < index - s.next,
          seqOf s0 s.next + UInt32.ofNat offset = seqOf s0 i :=
        ⟨i - s.next, by omega, by rw [seqOf_add, Nat.add_sub_cancel' hle]⟩
      have hne : seqOf s0 i ≠ seqOf s0 index := seqOf_ne (by omega) (by omega) (by omega)
      rw [if_neg hne, if_pos hgap]
      exact ⟨_, hnoticed _, rfl⟩
    · obtain ⟨t', hle, ht'⟩ := h.noticed i t hopen
      rw [if_neg (Ne.symm hne), ht']
      exact ⟨t', hle, ite_self _⟩

theorem tracks_step (e : NackEvent) (h : Tracks s0 s) (hproper : Proper s0 s e) :
    Tracks s0 (s.step s0 e) := by
  cases e with
  | packet index now =>
      obtain ⟨hclock, ⟨hstep, hge, hnear⟩ | ⟨hle, hlate⟩⟩ := hproper
      · exact h.ahead hstep hge hnear hclock
      · exact h.late hle hlate hclock
  | tick now => exact h.tick hproper
  | setRtt rtt => exact ⟨h.genuine, h.noticed, h.backoff⟩

/-- Every tick asks for missing packets only, and does so when they are due. -/
theorem right_of_proper {frameInterval rtt now : ℕ} {es : List NackEvent}
    (h : EachStep (step s0) (Proper s0) (start frameInterval rtt now) es) :
    EachStep (step s0) (Right s0) (start frameInterval rtt now) es :=
  h.imp (fun _ e => tracks_step e) (fun _ e htracks _ => htracks.right e)
    (tracks_start s0 frameInterval rtt now)

/-- Number 4294967295 comes late, 0 in its turn, and 1 is asked for when 2 has come. -/
theorem right_aroundWrap :
    EachStep (step 0xFFFFFFFF) (Right 0xFFFFFFFF) (start 33000000 20000000 0)
      [.packet 0 0, .packet 1 5000000, .packet 3 10000000, .tick 50000000] :=
  right_of_proper (by decide)

/-- The first packet of a stream that starts at 5 makes the receiver ask for the numbers
below it, which were never sent. -/
theorem neverSent_nacked : ¬ EachStep (step 5) (Right 5) (start 33000000 20000000 0)
    [.packet 0 0, .tick 40000000] := by
  rintro ⟨-, hright, -⟩
  obtain ⟨index, -, ⟨a, ha, hlt⟩, -⟩ := hright.genuine 40000000 rfl 0 (by decide)
  obtain rfl := List.mem_singleton.mp ha
  exact Nat.not_lt_zero index hlt

/-- In a stream that starts at 2147483648 a missing packet is never asked for. -/
theorem gap_forgotten :
    ¬ EachStep (step 0x80000000) (Right 0x80000000) (start 33000000 20000000 0)
      [.packet 0 0, .packet 2 0, .tick 40000000] := by
  rintro ⟨-, -, hright, -⟩
  have hopen : OpenSince 0x80000000 1 0 [(2, 0), (0, 0)] :=
    .inl ⟨by decide, rfl, fun b hb => by rw [List.mem_singleton.mp hb]; decide⟩
  exact hright.prompt 40000000 rfl 1 0 hopen (by decide) (fun n hn => nomatch hn) rfl

/-- The two ways of a stream that does not start at 0. -/
theorem neverSent_and_forgotten :
    (¬ EachStep (step 5) (Right 5) (start 33000000 20000000 0) [.packet 0 0, .tick 40000000]) ∧
      ¬ EachStep (step 0x80000000) (Right 0x80000000) (start 33000000 20000000 0)
        [.packet 0 0, .packet 2 0, .tick 40000000] :=
  ⟨neverSent_nacked, gap_forgotten⟩

/-! ### Streams that start at 0 -/

/-- Time does not go back, and a packet is not too far from those that came. -/
def Near (s : NackRun) : NackEvent → Prop
  | .packet index now => s.clock ≤ now ∧ index + 1 < s.next + 2 ^ 31 ∧ s.next ≤ index + 2 ^ 31
  | .tick now => s.clock ≤ now
  | .setRtt _ => True

theorem InStep.late (h : InStep s0 s) (hlt : index < s.next) (hnear : s.next ≤ index + 2 ^ 31) :
    0xFFFFFFFF / 2 ≤ seqOf s0 index - s.receiver.nextExpected := by
  rw [h, UInt32.le_iff_toNat_le, toNat_seqOf_sub s0 (by omega)]
  change 2147483647 ≤ _
  omega

theorem InStep.proper (h : InStep s0 s) {e : NackEvent} (hnear : Near s e) : Proper s0 s e := by
  cases e with
  | packet index now =>
      obtain ⟨hclock, hbelow, habove⟩ := hnear
      refine ⟨hclock, ?_⟩
      rcases Nat.lt_or_ge index s.next with hlt | hge
      · exact .inr ⟨hlt.le, h.late hlt habove⟩
      · exact .inl ⟨h, hge, hbelow⟩
  | tick now => exact hnear
  | setRtt rtt => trivial

theorem inStep_step (e : NackEvent) (h : InStep s0 s) (hnear : Near s e) :
    InStep s0 (s.step s0 e) := by
  cases e with
  | packet index now =>
      obtain ⟨-, hbelow, habove⟩ := hnear
      change (s.receiver.onPacket (seqOf s0 index) now).nextExpected =
        seqOf s0 (max (index + 1) s.next)
      rcases Nat.lt_or_ge index s.next with hlt | hge
      · rw [(NackReceiver.onPacket_late (h.late hlt habove)).1, Nat.max_eq_right hlt]
        exact h
      · rw [(NackReceiver.onPacket_ahead h hge hbelow).1, Nat.max_eq_left (Nat.le_succ_of_le hge)]
  | tick now => exact (NackReceiver.tick_keeps s.receiver now).1.trans h
  | setRtt rtt => exact h

theorem proper_of_near {frameInterval rtt now : ℕ} {es : List NackEvent}
    (h : EachStep (step 0) Near (start frameInterval rtt now) es) :
    EachStep (step 0) (Proper 0) (start frameInterval rtt now) es := by
  have hstart : InStep 0 (start frameInterval rtt now) := rfl
  exact h.imp (fun _ e => inStep_step e) (fun _ _ hstep => hstep.proper) hstart

end NackRun

end Wzp.Video
