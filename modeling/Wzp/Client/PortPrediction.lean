import Mathlib.Algebra.Order.Ring.Abs
import Mathlib.Data.Int.ModEq
import Mathlib.Tactic.Linarith
import Wzp.Client.DialCandidates
import Wzp.Lib.Table

/-!
# Predicting the ports of a NAT

From the ports it gave to a few flows, a NAT is found to count them up or down in
steps, and the next ports are computed. Differences of ports are 16-bit integers.
-/
namespace Wzp.Client

inductive PortAllocation where
  | portPreserving
  | sequential (delta : ℤ)
  | random
  | unknown
  deriving DecidableEq, Repr

/-- Arithmetic that leaves its type. -/
inductive Overflow where
  | overflow
  deriving DecidableEq, Repr

def i16Sub (a b : ℤ) : Except Overflow ℤ :=
  if -32768 ≤ a - b ∧ a - b ≤ 32767 then .ok (a - b) else .error .overflow

/-- The cast to 16 bits. -/
def asI16 (d : ℤ) : ℤ := (d + 32768) % 65536 - 32768

/-- A difference of ports, the short way round. -/
def wrapDelta (d : ℤ) : ℤ :=
  if d > 32768 then asI16 (d - 65536) else if d < -32768 then asI16 (d + 65536) else asI16 d

def portDeltas (ports : List UInt16) : List ℤ :=
  (ports.zip ports.tail).map fun w => wrapDelta (w.2.toNat - w.1.toNat)

/-- Stops at the first difference that is not close. -/
def allClose (firstDelta : ℤ) : List ℤ → Except Overflow Bool
  | [] => .ok true
  | d :: deltas => do
      let diff ← i16Sub d firstDelta
      if diff.natAbs ≤ 1 then allClose firstDelta deltas else .ok false

/-- The counters have 32 bits. -/
def countDeltas : List ℤ → Table ℤ ℕ → Except Overflow (Table ℤ ℕ)
  | [], deltaCounts => .ok deltaCounts
  | d :: deltas, deltaCounts =>
      let count := (deltaCounts.lookup d).getD 0 + 1
      if count < 2 ^ 32 then countDeltas deltas (deltaCounts.insert d count) else .error .overflow

/-- The last one with the highest count. -/
def mostCommon (counts : List (ℤ × ℕ)) : Option (ℤ × ℕ) :=
  counts.foldl (fun best c => match best with
    | none => some c
    | some b => if b.2 ≤ c.2 then some c else some b) none

/-- Three fifths of the differences, rounded up, in 32 bits. -/
def agreementThreshold (n : ℕ) : ℕ :=
  let x := Float.ofNat n * 0.6
  let t := x.toUInt32.toNat
  if Float.ofNat t < x then min (t + 1) (2 ^ 32 - 1) else t

/-- What most of the `n` differences agree on. The map of counts is iterated in some order. -/
def mostlySequential (order : List (ℤ × ℕ) → List (ℤ × ℕ)) (n : ℕ) (deltaCounts : Table ℤ ℕ) :
    PortAllocation :=
  match mostCommon (order (deltaCounts.entries.map fun e => (e.1, e.2))) with
  | some c => if c.2 ≥ agreementThreshold n ∧ c.1 ≠ 0 then .sequential c.1 else .random
  | none => .random

def classifyPortAllocation (order : List (ℤ × ℕ) → List (ℤ × ℕ)) (ports : List UInt16) :
    Except Overflow PortAllocation :=
  if ports.length < 2 then .ok .unknown
  else if ports.all (· == ports.headD 0) then .ok .portPreserving
  else if ports.length < 3 then .ok .unknown
  else
    let deltas := portDeltas ports
    let firstDelta := deltas.headD 0
    if firstDelta = 0 then .ok .random
    else do
      let close ← allClose firstDelta deltas
      if close then .ok (.sequential firstDelta)
      else do
        let deltaCounts ← countDeltas deltas ∅
        .ok (mostlySequential order deltas.length deltaCounts)

/-! ## When nothing overflows -/

/-- The first difference that is not close to the first of all. -/
def firstFar (deltas : List ℤ) : Option ℤ :=
  deltas.find? fun d => 1 < (d - deltas.headD 0).natAbs

/-- If the differences are compared, then the first that is not close is within 16
bits of the first of all, and none occurs too often to be counted. -/
def StaysInRange (ports : List UInt16) : Prop :=
  3 ≤ ports.length → ports.all (· == ports.headD 0) = false → (portDeltas ports).headD 0 ≠ 0 →
    ∀ d, firstFar (portDeltas ports) = some d →
      (-32768 ≤ d - (portDeltas ports).headD 0 ∧ d - (portDeltas ports).headD 0 ≤ 32767) ∧
        ∀ x, (portDeltas ports).count x < 2 ^ 32

variable {firstDelta : ℤ} {deltas : List ℤ}

theorem i16Sub_of_close {a b : ℤ} (h : (a - b).natAbs ≤ 1) : i16Sub a b = .ok (a - b) :=
  if_pos (by omega)

theorem allClose_of_none (h : deltas.find? (fun d => 1 < (d - firstDelta).natAbs) = none) :
    allClose firstDelta deltas = .ok true := by
  induction deltas with
  | nil => rfl
  | cons d deltas ih =>
      rw [List.find?_eq_none] at h
      have hd := h d List.mem_cons_self
      rw [decide_eq_true_eq] at hd
      have hclose : (d - firstDelta).natAbs ≤ 1 := Nat.le_of_not_lt hd
      rw [allClose, i16Sub_of_close hclose]
      change (if (d - firstDelta).natAbs ≤ 1 then allClose firstDelta deltas else .ok false) = .ok true
      rw [if_pos hclose]
      exact ih (List.find?_eq_none.mpr fun x hx => h x (List.mem_cons_of_mem d hx))

theorem allClose_of_some {far : ℤ}
    (h : deltas.find? (fun d => 1 < (d - firstDelta).natAbs) = some far) :
    allClose firstDelta deltas =
      if -32768 ≤ far - firstDelta ∧ far - firstDelta ≤ 32767 then .ok false
      else .error .overflow := by
  induction deltas with
  | nil => cases h
  | cons d deltas ih =>
      rw [allClose]
      by_cases hd : 1 < (d - firstDelta).natAbs
      · rw [List.find?_cons_of_pos (by rw [decide_eq_true hd])] at h
        obtain rfl := Option.some.inj h
        rw [i16Sub]
        split
        · change (if (d - firstDelta).natAbs ≤ 1 then _ else _) = _
          rw [if_neg (Nat.not_le.mpr hd)]
        · rfl
      · rw [List.find?_cons_of_neg (by rw [decide_eq_true_eq]; exact hd)] at h
        have hclose : (d - firstDelta).natAbs ≤ 1 := Nat.le_of_not_lt hd
        rw [i16Sub_of_close hclose]
        change (if (d - firstDelta).natAbs ≤ 1 then allClose firstDelta deltas else .ok false) = _
        rw [if_pos hclose]
        exact ih h

/-- Counting succeeds if no count gets too high. -/
theorem countDeltas_iff (deltas : List ℤ) (counts : Table ℤ ℕ)
    (hcounts : ∀ x, (counts.lookup x).getD 0 < 2 ^ 32) :
    (∃ t, countDeltas deltas counts = .ok t) ↔
      ∀ x, (counts.lookup x).getD 0 + deltas.count x < 2 ^ 32 := by
  induction deltas generalizing counts with
  | nil =>
      refine ⟨fun _ x => ?_, fun _ => ⟨counts, rfl⟩⟩
      rw [List.count_nil]
      exact hcounts x
  | cons d deltas ih =>
      rw [countDeltas]
      split
      · next hroom =>
          have hlookup : ∀ x, ((counts.insert d ((counts.lookup d).getD 0 + 1)).lookup x).getD 0 =
              (counts.lookup x).getD 0 + if d = x then 1 else 0 := by
            intro x
            rw [Table.lookup_insert]
            by_cases hx : x = d
            · subst hx
              rw [if_pos rfl, if_pos rfl, Option.getD_some]
            · rw [if_neg hx, if_neg (Ne.symm hx), Nat.add_zero]
          rw [ih _ (fun x => ?_)]
          · refine forall_congr' fun x => ?_
            rw [hlookup, List.count_cons, Nat.add_assoc, Nat.add_comm (List.count x deltas)]
            simp only [beq_iff_eq]
          · rw [hlookup]
            split
            · next hx =>
                subst hx
                exact hroom
            · exact hcounts x
      · next hfull =>
          constructor
          · rintro ⟨t, ht⟩
            cases ht
          · intro h
            have hd := h d
            rw [List.count_cons_self] at hd
            omega

/-- Counting from an empty table succeeds if no delta is too frequent. -/
theorem countDeltas_empty_iff (deltas : List ℤ) :
    (∃ t, countDeltas deltas ∅ = .ok t) ↔ ∀ x, deltas.count x < 2 ^ 32 := by
  have hempty : ∀ x : ℤ, ((∅ : Table ℤ ℕ).lookup x).getD 0 = 0 := fun x => rfl
  have hcount := countDeltas_iff deltas ∅ fun x => by
    rw [hempty]
    decide
  simpa only [hempty, Nat.zero_add] using hcount

theorem classify_ok_iff (order : List (ℤ × ℕ) → List (ℤ × ℕ)) (ports : List UInt16) :
    (∃ r, classifyPortAllocation order ports = .ok r) ↔ StaysInRange ports := by
  rw [classifyPortAllocation, StaysInRange]
  split
  · next hshort => exact ⟨fun _ hlen => by omega, fun _ => ⟨_, rfl⟩⟩
  split
  · next hsame =>
      refine ⟨fun _ _ hdiffer => ?_, fun _ => ⟨_, rfl⟩⟩
      rw [hsame] at hdiffer
      cases hdiffer
  next hdiffer =>
  split
  · next hshort => exact ⟨fun _ hlen => by omega, fun _ => ⟨_, rfl⟩⟩
  next hlen =>
  dsimp only
  split
  · next hzero => exact ⟨fun _ _ _ hne => absurd hzero hne, fun _ => ⟨_, rfl⟩⟩
  next hne =>
  have hdiffer' : ports.all (· == ports.headD 0) = false := Bool.eq_false_iff.mpr hdiffer
  cases hfar : firstFar (portDeltas ports) with
  | none =>
      rw [allClose_of_none hfar]
      refine ⟨fun _ _ _ _ d hd => ?_, fun _ => ⟨_, rfl⟩⟩
      exact absurd hd.symm (Option.some_ne_none d)
  | some far =>
      rw [allClose_of_some hfar]
      by_cases hrange : -32768 ≤ far - (portDeltas ports).headD 0 ∧
          far - (portDeltas ports).headD 0 ≤ 32767
      · rw [if_pos hrange]
        constructor
        · rintro ⟨r, hr⟩ - - - d hd
          obtain rfl := Option.some.inj hd
          refine ⟨hrange, fun x => ?_⟩
          cases ht : countDeltas (portDeltas ports) ∅ with
          | error e =>
              change (countDeltas (portDeltas ports) ∅ >>= _) = _ at hr
              rw [ht] at hr
              cases hr
          | ok t => exact (countDeltas_empty_iff _).mp ⟨t, ht⟩ x
        · intro h
          obtain ⟨-, hfew⟩ := h (by omega) hdiffer' hne far rfl
          obtain ⟨t, ht⟩ := (countDeltas_empty_iff _).mpr hfew
          change ∃ r, (countDeltas (portDeltas ports) ∅ >>= _) = _
          rw [ht]
          exact ⟨_, rfl⟩
      · rw [if_neg hrange]
        constructor
        · rintro ⟨r, hr⟩
          cases hr
        · intro h
          exact absurd (h (by omega) hdiffer' hne far rfl).1 hrange

/-! ## A NAT that counts -/

def portOf (x : ℤ) : UInt16 := UInt16.ofNat (x % 65536).toNat

/-- The ports of so many flows, `d` apart. -/
def observed (p d : ℤ) : ℕ → List UInt16
  | 0 => []
  | n + 1 => portOf p :: observed (p + d) d n

theorem toNat_portOf (x : ℤ) : ((portOf x).toNat : ℤ) = x % 65536 := by
  have hpos := Int.emod_nonneg x (by decide : (65536 : ℤ) ≠ 0)
  have hlt := Int.emod_lt_of_pos x (by decide : (0 : ℤ) < 65536)
  rw [portOf, UInt16.toNat_ofNat_of_lt' (show _ < 65536 by omega), Int.toNat_of_nonneg hpos]

@[simp] theorem observed_length (p d : ℤ) (n : ℕ) : (observed p d n).length = n := by
  induction n generalizing p with
  | zero => rfl
  | succ n ih => rw [observed, List.length_cons, ih]

theorem wrapDelta_portOf (x d : ℤ) :
    wrapDelta ((portOf (x + d)).toNat - (portOf x).toNat) = asI16 d := by
  rw [toNat_portOf, toNat_portOf, wrapDelta]
  split
  · rw [asI16, asI16]
    omega
  split
  · rw [asI16, asI16]
    omega
  · rw [asI16, asI16]
    omega

theorem portDeltas_observed (p d : ℤ) (n : ℕ) :
    portDeltas (observed p d (n + 1)) = List.replicate n (asI16 d) := by
  induction n generalizing p with
  | zero => rfl
  | succ n ih =>
      have hrest := ih (p + d)
      rw [portDeltas] at hrest
      rw [portDeltas, observed, observed, List.tail_cons, List.zip_cons_cons, List.map_cons,
        wrapDelta_portOf, List.replicate_succ, ← hrest]
      rfl

theorem asI16_modEq (d : ℤ) : asI16 d ≡ d [ZMOD 65536] := by
  rw [asI16, Int.ModEq]
  omega

theorem asI16_ne_zero {d : ℤ} (hd : ¬ (65536 : ℤ) ∣ d) : asI16 d ≠ 0 := by
  rw [asI16]
  omega

/-- Ports that are a fixed step apart are found to be so. -/
theorem classify_observed (order : List (ℤ × ℕ) → List (ℤ × ℕ)) (p d : ℤ) {n : ℕ}
    (hd : ¬ (65536 : ℤ) ∣ d) (hn : 3 ≤ n) :
    classifyPortAllocation order (observed p d n) = .ok (.sequential (asI16 d)) := by
  obtain ⟨n, rfl⟩ := Nat.exists_eq_add_of_le' (Nat.le_trans (by decide : 2 ≤ 3) hn)
  have hdeltas := portDeltas_observed p d (n + 1)
  have hhead : (List.replicate (n + 1) (asI16 d)).headD 0 = asI16 d := rfl
  have hdiffer : (observed p d (n + 2)).all (· == (observed p d (n + 2)).headD 0) = false := by
    rw [List.all_eq_false]
    refine ⟨portOf (p + d), List.mem_cons_of_mem _ List.mem_cons_self, ?_⟩
    rw [beq_iff_eq]
    intro hsame
    have hports := congrArg (fun q => (q.toNat : ℤ)) hsame
    change ((portOf (p + d)).toNat : ℤ) = ((portOf p).toNat : ℤ) at hports
    rw [toNat_portOf, toNat_portOf] at hports
    omega
  have hclose : allClose (asI16 d) (List.replicate (n + 1) (asI16 d)) = .ok true := by
    apply allClose_of_none
    rw [List.find?_eq_none]
    intro x hx
    rw [List.eq_of_mem_replicate hx, Int.sub_self]
    decide
  rw [classifyPortAllocation, observed_length, if_neg (by omega), hdiffer, if_neg Bool.false_ne_true,
    if_neg (by omega)]
  dsimp only
  rw [hdeltas, hhead, if_neg (asI16_ne_zero hd), hclose]
  rfl

/-! ## The ports predicted -/

theorem mem_predictPorts {last q : UInt16} {delta : ℤ} {offset spread : ℕ} :
    q ∈ predictPorts last delta offset spread ↔ q ≠ 0 ∧
      ∃ i : ℤ, |i| ≤ spread ∧
        (q.toNat : ℤ) = (last.toNat + delta * (offset + 1) + i * delta) % 65536 := by
  have hcasts : ∀ j : ℤ, (j ∈ (do let a ← List.range (2 * spread + 1); pure (a : ℤ))) ↔
      ∃ n < 2 * spread + 1, (n : ℤ) = j := by
    intro j
    simp only [List.bind_eq_flatMap, List.pure_def, List.mem_flatMap, List.mem_range,
      List.mem_singleton, eq_comm]
  constructor
  · intro hq
    refine ⟨ne_zero_of_mem_predictPorts hq, ?_⟩
    obtain ⟨n, hn, rfl⟩ := List.mem_map.mp hq
    rw [List.mem_dedup, List.mem_insertionSort] at hn
    obtain ⟨x, hx, rfl⟩ := List.mem_map.mp hn
    obtain ⟨hx, -⟩ := List.mem_filter.mp hx
    obtain ⟨j, hj, rfl⟩ := List.mem_map.mp hx
    obtain ⟨n, hn, rfl⟩ := (hcasts j).mp hj
    have hport := toNat_portOf (last.toNat + delta * (offset + 1) + (n - spread) * delta)
    exact ⟨n - spread, abs_le.mpr ⟨by omega, by omega⟩, hport⟩
  · rintro ⟨hq, i, hi, heq⟩
    obtain ⟨hlow, hhigh⟩ := abs_le.mp hi
    have hpos : 0 < q.toNat := Nat.pos_of_ne_zero fun hzero => hq (UInt16.toNat_inj.mp hzero)
    refine List.mem_map.mpr ⟨q.toNat, ?_, UInt16.ofNat_toNat⟩
    rw [List.mem_dedup, List.mem_insertionSort]
    refine List.mem_map.mpr ⟨q.toNat, List.mem_filter.mpr ⟨List.mem_map.mpr ⟨i + spread, ?_, ?_⟩, ?_⟩,
      Int.toNat_natCast _⟩
    · exact (hcasts _).mpr ⟨(i + spread).toNat, by omega, by omega⟩
    · rw [heq, Int.add_sub_cancel]
    · rw [decide_eq_true_eq]
      exact Int.natCast_pos.mpr hpos

/-- No value on the way leaves 32 bits. -/
def FitsI32 (x : ℤ) : Prop := -2 ^ 31 ≤ x ∧ x < 2 ^ 31

theorem predict_fitsI32 (last : UInt16) (d : ℤ) {offset spread : ℕ} (hoffset : offset ≤ 1000)
    (hspread : spread ≤ 1000) {i : ℤ} (hi : |i| ≤ spread) :
    FitsI32 (asI16 d * (offset + 1)) ∧ FitsI32 (last.toNat + asI16 d * (offset + 1)) ∧
      FitsI32 (i * asI16 d) ∧ FitsI32 (last.toNat + asI16 d * (offset + 1) + i * asI16 d) := by
  have hlast := last.toNat_lt
  have hdelta : |asI16 d| ≤ 32768 := by
    rw [asI16, abs_le]
    omega
  have hbase : |asI16 d * (offset + 1)| ≤ 32768 * 1001 := by
    rw [abs_mul]
    exact mul_le_mul hdelta (abs_le.mpr ⟨by omega, by omega⟩) (abs_nonneg _) (by decide)
  have hstep : |i * asI16 d| ≤ 1000 * 32768 := by
    rw [abs_mul]
    exact mul_le_mul (le_trans hi (by exact_mod_cast hspread)) hdelta (abs_nonneg _) (by decide)
  obtain ⟨hbase, hbase'⟩ := abs_le.mp hbase
  obtain ⟨hstep, hstep'⟩ := abs_le.mp hstep
  refine ⟨⟨?_, ?_⟩, ⟨?_, ?_⟩, ⟨?_, ?_⟩, ?_, ?_⟩ <;> omega

/-- Steps of `delta` are steps of `d`. -/
theorem predicted_modEq (last : UInt16) (d : ℤ) (offset : ℕ) (i : ℤ) :
    last.toNat + asI16 d * (offset + 1) + i * asI16 d ≡ last.toNat + (offset + 1 + i) * d
      [ZMOD 65536] := by
  have hsteps : (last.toNat : ℤ) + asI16 d * (offset + 1) + i * asI16 d =
      last.toNat + (offset + 1 + i) * asI16 d := by linarith [mul_comm (asI16 d) (offset + 1)]
  rw [hsteps]
  exact ((asI16_modEq d).mul_left _).add_left _

/-- Classifying overflows for the ports whose differences are too far apart. Of a NAT that
counts in steps the step is found, and the port it gives next is predicted among others a few
steps from it. -/
theorem classify_and_predict (order : List (ℤ × ℕ) → List (ℤ × ℕ)) :
    (∀ ports, (∃ r, classifyPortAllocation order ports = .ok r) ↔ StaysInRange ports) ∧
    ∀ (p d : ℤ) (n : ℕ), ¬ (65536 : ℤ) ∣ d → 3 ≤ n →
      ∃ delta, classifyPortAllocation order (observed p d n) = .ok (.sequential delta) ∧
        delta ≡ d [ZMOD 65536] ∧
        ∀ (last : UInt16) (offset spread : ℕ), offset ≤ 1000 → spread ≤ 1000 →
          (∀ q : UInt16, q ≠ 0 → q.toNat ≡ last.toNat + (offset + 1) * d [ZMOD 65536] →
            q ∈ predictPorts last delta offset spread) ∧
          (∀ q ∈ predictPorts last delta offset spread, ∃ i : ℤ, |i| ≤ spread ∧
            q.toNat ≡ last.toNat + (offset + 1 + i) * d [ZMOD 65536]) ∧
          ∀ i : ℤ, |i| ≤ spread → FitsI32 (delta * (offset + 1)) ∧
            FitsI32 (last.toNat + delta * (offset + 1)) ∧ FitsI32 (i * delta) ∧
              FitsI32 (last.toNat + delta * (offset + 1) + i * delta) := by
  refine ⟨classify_ok_iff order, fun p d n hd hn => ?_⟩
  refine ⟨asI16 d, classify_observed order p d hd hn, asI16_modEq d, ?_⟩
  intro last offset spread hoffset hspread
  refine ⟨fun q hq hnext => ?_, fun q hq => ?_, fun i hi => predict_fitsI32 last d hoffset hspread hi⟩
  · refine mem_predictPorts.mpr ⟨hq, 0, by rw [abs_zero]; exact Int.natCast_nonneg spread, ?_⟩
    have hsame := predicted_modEq last d offset 0
    rw [Int.add_zero] at hsame
    have hmod : (q.toNat : ℤ) % 65536 = q.toNat := by
      have hlt := q.toNat_lt
      omega
    rw [← hmod]
    exact hnext.trans hsame.symm
  · obtain ⟨-, i, hi, heq⟩ := mem_predictPorts.mp hq
    refine ⟨i, hi, ?_⟩
    rw [heq]
    exact (Int.mod_modEq _ _).trans (predicted_modEq last d offset i)

theorem classify_and_predict_wrapping :
    (∃ delta, classifyPortAllocation id (observed 65534 1 4) = .ok (.sequential delta) ∧
      delta ≡ 1 [ZMOD 65536] ∧ 2 ∈ predictPorts 1 delta 0 2) ∧
    ∃ r, classifyPortAllocation id [40001, 40003, 40004] = .ok r := by
  obtain ⟨delta, hclassify, hdelta, hpredict⟩ :=
    (classify_and_predict id).2 65534 1 4 (by decide) (by decide)
  refine ⟨⟨delta, hclassify, hdelta, ?_⟩, ?_⟩
  · exact (hpredict 1 0 2 (by decide) (by decide)).1 2 (by decide) (by decide)
  · refine ((classify_and_predict id).1 [40001, 40003, 40004]).mpr fun _ _ _ d hd => ?_
    have hnone : firstFar (portDeltas [40001, 40003, 40004]) = none := by decide +kernel
    exact absurd (hd.symm.trans hnone) (Option.some_ne_none d)

/-- A port far off and back again: the second difference less the first has 17 bits. -/
theorem classify_overflows : ¬ ∀ ports, ∃ r, classifyPortAllocation id ports = .ok r := by
  intro h
  obtain ⟨r, hr⟩ := h [1, 30001, 1]
  have hoverflow : classifyPortAllocation id [1, 30001, 1] = .error .overflow := by decide +kernel
  rw [hoverflow] at hr
  cases hr

end Wzp.Client
