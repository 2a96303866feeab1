import Wzp.Lib.Runs
import Wzp.Relay.ResponsePolicy

/-!
# Escalation

As long as the answers are right, the one instant that the policy keeps for a fingerprint and
a code is that of the abuse that was not a repetition. Abuse that goes on for more than a day
outlives it, and a first offence leaves it too.
-/
namespace Wzp.Relay
open Runs

namespace ResponsePolicy
variable {policy unpruned : ResponsePolicy} {fingerprint : String} {code : ViolationCode} {now : ℕ}

theorem fresh_iff (hday : policy.blockDuration = day) {last : ℕ} :
    policy.fresh now last = true ↔ now - last < day := by
  rw [fresh, hday, decide_eq_true_eq]

theorem isRepeat_iff (hday : policy.blockDuration = day) :
    policy.isRepeat fingerprint code now = true ↔
      ∃ last, policy.cooldowns.lookup (fingerprint, code) = some last ∧ now - last < day := by
  unfold isRepeat
  cases policy.cooldowns.lookup (fingerprint, code) with
  | none => simp
  | some last => simp [fresh_iff hday]

theorem isBlocked_iff (hday : policy.blockDuration = day) :
    policy.isBlocked fingerprint now = true ↔
      ∃ code last, policy.cooldowns.lookup (fingerprint, code) = some last ∧ now - last < day := by
  unfold isBlocked
  rw [List.any_eq_true]
  constructor
  · rintro ⟨⟨⟨fp, code⟩, last⟩, hmem, hentry⟩
    obtain ⟨hfp, hfresh⟩ := Bool.and_eq_true_iff.mp hentry
    obtain rfl : fp = fingerprint := of_decide_eq_true hfp
    exact ⟨code, last, AList.mem_lookup_iff.mpr hmem, (fresh_iff hday).mp hfresh⟩
  · rintro ⟨code, last, hlookup, hlt⟩
    exact ⟨⟨(fingerprint, code), last⟩, AList.mem_lookup_iff.mp hlookup,
      Bool.and_eq_true_iff.mpr ⟨decide_eq_true rfl, (fresh_iff hday).mpr hlt⟩⟩

theorem evaluate_of_isRepeat (h : policy.isRepeat fingerprint code now = true) :
    policy.evaluate fingerprint code .abusive now = (policy, .block) := by
  rw [evaluate, if_pos h]

theorem evaluate_of_not_isRepeat (h : policy.isRepeat fingerprint code now = false) :
    policy.evaluate fingerprint code .abusive now =
      ({ policy with cooldowns := policy.cooldowns.insert (fingerprint, code) now },
        .close ⟨code, "Tier G enforcement: " ++ code.debug⟩) := by
  rw [evaluate, h]
  rfl

theorem evaluate_eq_block_iff : (policy.evaluate fingerprint code .abusive now).2 = .block ↔
    policy.isRepeat fingerprint code now = true := by
  cases h : policy.isRepeat fingerprint code now with
  | true => simp [evaluate_of_isRepeat h]
  | false => simp [evaluate_of_not_isRepeat h]

/-! ## Pruning -/

/-- A pruned policy differs from one that is not only in entries that no call heeds any more. -/
structure SameWhenFresh (now : ℕ) (policy unpruned : ResponsePolicy) : Prop where
  policy_day : policy.blockDuration = day
  unpruned_day : unpruned.blockDuration = day
  kept : ∀ k last, policy.cooldowns.lookup k = some last → unpruned.cooldowns.lookup k = some last
  fresh : ∀ k last, unpruned.cooldowns.lookup k = some last → now - last < day →
    policy.cooldowns.lookup k = some last

namespace SameWhenFresh
variable (h : SameWhenFresh now policy unpruned)
include h

theorem mono {later : ℕ} (hle : now ≤ later) : SameWhenFresh later policy unpruned where
  policy_day := h.policy_day
  unpruned_day := h.unpruned_day
  kept := h.kept
  fresh k last hlookup hlt := h.fresh k last hlookup (by omega)

theorem lookup_iff {k : String × ViolationCode} {last : ℕ} :
    policy.cooldowns.lookup k = some last ∧ now - last < day ↔
      unpruned.cooldowns.lookup k = some last ∧ now - last < day :=
  ⟨fun hp => ⟨h.kept k last hp.1, hp.2⟩, fun hu => ⟨h.fresh k last hu.1 hu.2, hu.2⟩⟩

theorem isRepeat_eq (fingerprint : String) (code : ViolationCode) :
    policy.isRepeat fingerprint code now = unpruned.isRepeat fingerprint code now := by
  rw [Bool.eq_iff_iff, isRepeat_iff h.policy_day, isRepeat_iff h.unpruned_day]
  exact exists_congr fun _ => h.lookup_iff

theorem isBlocked_eq : policy.isBlocked fingerprint now = unpruned.isBlocked fingerprint now := by
  rw [Bool.eq_iff_iff, isBlocked_iff h.policy_day, isBlocked_iff h.unpruned_day]
  exact exists_congr fun _ => exists_congr fun _ => h.lookup_iff

theorem prune : SameWhenFresh now (policy.prune now) unpruned where
  policy_day := h.policy_day
  unpruned_day := h.unpruned_day
  kept k last hlookup := h.kept k last (Table.lookup_retain_eq_some.mp hlookup).1
  fresh k last hlookup hlt := Table.lookup_retain_eq_some.mpr
    ⟨h.fresh k last hlookup hlt, (fresh_iff h.policy_day).mpr hlt⟩

theorem evaluate (fingerprint : String) (code : ViolationCode) (verdict : Verdict) :
    (policy.evaluate fingerprint code verdict now).2 =
        (unpruned.evaluate fingerprint code verdict now).2 ∧
      SameWhenFresh now (policy.evaluate fingerprint code verdict now).1
        (unpruned.evaluate fingerprint code verdict now).1 := by
  cases verdict with
  | legitimate => exact ⟨rfl, h⟩
  | suspect => exact ⟨rfl, h⟩
  | abusive =>
      have heq := h.isRepeat_eq fingerprint code
      cases hrepeat : unpruned.isRepeat fingerprint code now with
      | true =>
          rw [evaluate_of_isRepeat hrepeat, evaluate_of_isRepeat (heq.trans hrepeat)]
          exact ⟨rfl, h⟩
      | false =>
          rw [evaluate_of_not_isRepeat hrepeat, evaluate_of_not_isRepeat (heq.trans hrepeat)]
          refine ⟨rfl, h.policy_day, h.unpruned_day, fun k last => ?_, fun k last => ?_⟩
          · dsimp only
            rw [Table.lookup_insert, Table.lookup_insert]
            split
            · exact id
            · exact h.kept k last
          · dsimp only
            rw [Table.lookup_insert, Table.lookup_insert]
            split
            · exact fun hnow _ => hnow
            · exact h.fresh k last

end SameWhenFresh

end ResponsePolicy

namespace PolicyRun
open ResponsePolicy

variable {run : PolicyRun} {fingerprint : String} {code : ViolationCode} {x y : Evaluation}

theorem abusiveBefore_iff : run.abusiveBefore fingerprint code = true ↔
    ∃ x ∈ run.past, x.Offends fingerprint code ∧ run.now - x.instant < day := by
  rw [abusiveBefore, List.any_eq_true]
  refine exists_congr fun x => and_congr Iff.rfl ?_
  rw [Bool.and_eq_true_iff, decide_eq_true_eq, decide_eq_true_eq]

/-- What holds of a run as long as the answers are right. -/
structure Tracked (run : PolicyRun) : Prop where
  same : SameWhenFresh run.now run.policy run.unpruned
  past_le : ∀ x ∈ run.past, x.instant ≤ run.now
  /-- The instant of an entry is that of a first offence. -/
  recorded : ∀ fingerprint code last,
    run.unpruned.cooldowns.lookup (fingerprint, code) = some last →
      ∃ x ∈ run.past, x.Offends fingerprint code ∧ x.again = false ∧ x.instant = last
  /-- It is not older than that of any first offence. -/
  latest : ∀ x ∈ run.past, ∀ fingerprint code, x.Offends fingerprint code → x.again = false →
    ∃ last, run.unpruned.cooldowns.lookup (fingerprint, code) = some last ∧ x.instant ≤ last
  /-- Before a first offence there was none for a day. -/
  alone : ∀ x ∈ run.past, ∀ y ∈ run.past, ∀ fingerprint code, x.Offends fingerprint code →
    y.Offends fingerprint code → x.again = false → y.instant < x.instant →
      day ≤ x.instant - y.instant
  /-- Less than a day before a repeated offence there was a first one. -/
  anchored : ∀ x ∈ run.past, ∀ fingerprint code, x.Offends fingerprint code → x.again = true →
    ∃ y ∈ run.past, y.Offends fingerprint code ∧ y.again = false ∧ x.instant - y.instant < day
  blocked : ∀ x ∈ run.past, x.action = .block ↔ x.again = true

theorem tracked_start (now : ℕ) : Tracked (start now) where
  same := ⟨rfl, rfl, fun _ _ h => h, fun _ _ h _ => h⟩
  past_le _ h := absurd h List.not_mem_nil
  recorded _ _ _ h := by cases h
  latest _ h := absurd h List.not_mem_nil
  alone _ h := absurd h List.not_mem_nil
  anchored _ h := absurd h List.not_mem_nil
  blocked _ h := absurd h List.not_mem_nil

theorem Tracked.wait (h : Tracked run) (elapsed : ℕ) : Tracked (run.wait elapsed) :=
  { h with
    same := h.same.mono (Nat.le_add_right _ _)
    past_le := fun x hx => Nat.le_trans (h.past_le x hx) (Nat.le_add_right _ _) }

theorem Tracked.prune (h : Tracked run) : Tracked (run.take .prune) :=
  { h with same := h.same.prune }

/-! ## The condition and the answers -/

section
variable (h : Tracked run)
include h

/-- The entry is heeded exactly if some first offence is. -/
theorem Tracked.isRepeat_iff : run.policy.isRepeat fingerprint code run.now = true ↔
    ∃ x ∈ run.past, x.Offends fingerprint code ∧ x.again = false ∧ run.now - x.instant < day := by
  rw [h.same.isRepeat_eq, ResponsePolicy.isRepeat_iff h.same.unpruned_day]
  constructor
  · rintro ⟨last, hlookup, hlt⟩
    obtain ⟨x, hx, hoffends, hfirst, rfl⟩ := h.recorded _ _ _ hlookup
    exact ⟨x, hx, hoffends, hfirst, hlt⟩
  · rintro ⟨x, hx, hoffends, hfirst, hlt⟩
    obtain ⟨last, hlookup, hle⟩ := h.latest x hx _ _ hoffends hfirst
    exact ⟨last, hlookup, by omega⟩

theorem Tracked.isBlocked_iff : run.policy.isBlocked fingerprint run.now = true ↔
    ∃ x ∈ run.past, x.fingerprint = fingerprint ∧ x.verdict = .abusive ∧ x.again = false ∧
      run.now - x.instant < day := by
  rw [h.same.isBlocked_eq, ResponsePolicy.isBlocked_iff h.same.unpruned_day]
  constructor
  · rintro ⟨code, last, hlookup, hlt⟩
    obtain ⟨x, hx, hoffends, hfirst, rfl⟩ := h.recorded _ _ _ hlookup
    exact ⟨x, hx, hoffends.1, hoffends.2.2, hfirst, hlt⟩
  · rintro ⟨x, hx, hfingerprint, habusive, hfirst, hlt⟩
    obtain ⟨last, hlookup, hle⟩ :=
      h.latest x hx _ x.code ⟨hfingerprint, rfl, habusive⟩ hfirst
    exact ⟨x.code, last, hlookup, by omega⟩

/-- The abuse of the last day goes back to a first offence in it, unless some of it repeats
older abuse. -/
theorem Tracked.first_iff (fingerprint : String) (code : ViolationCode) :
    ((∃ x ∈ run.past, x.Offends fingerprint code ∧ x.again = false ∧ run.now - x.instant < day) ↔
      ∃ x ∈ run.past, x.Offends fingerprint code ∧ run.now - x.instant < day) ↔
    ∀ x ∈ run.past, ∀ y ∈ run.past, x.Offends fingerprint code → y.Offends fingerprint code →
      y.instant - x.instant < day → run.now - y.instant < day → run.now - x.instant < day := by
  constructor
  · intro hiff x hx y hy hxo hyo hnear hlt
    obtain ⟨z, hz, hzo, hfirst, hrecent⟩ := hiff.mpr ⟨y, hy, hyo, hlt⟩
    have hzle := h.past_le z hz
    -- neither of the two is less than a day before the first offence
    have hxz := h.alone z hz x hx _ _ hzo hxo hfirst
    have hyz := h.alone z hz y hy _ _ hzo hyo hfirst
    by_contra hold
    omega
  · intro hall
    refine ⟨fun ⟨x, hx, hxo, _, hlt⟩ => ⟨x, hx, hxo, hlt⟩, ?_⟩
    rintro ⟨y, hy, hyo, hlt⟩
    cases hagain : y.again with
    | false => exact ⟨y, hy, hyo, hagain, hlt⟩
    | true =>
        obtain ⟨x, hx, hxo, hfirst, hnear⟩ := h.anchored y hy _ _ hyo hagain
        exact ⟨x, hx, hxo, hfirst, hall x hx y hy hxo hyo hnear hlt⟩

theorem Tracked.escalatesNow_iff (call : PolicyCall) :
    run.EscalatesNow call ↔ run.OneDayAtATimeNow call := by
  cases call with
  | evaluate fingerprint code verdict =>
      have hsame := (h.same.evaluate fingerprint code verdict).1
      rw [EscalatesNow, OneDayAtATimeNow, and_iff_left hsame]
      refine forall_congr' fun habusive => ?_
      rw [habusive, evaluate_eq_block_iff, h.isRepeat_iff]
      exact h.first_iff fingerprint code
  | isBlocked fingerprint =>
      rw [EscalatesNow, OneDayAtATimeNow, and_iff_left h.same.isBlocked_eq, h.isBlocked_iff]
      refine iff_congr Iff.rfl (exists_congr fun x => and_congr_right fun hx => ?_)
      rw [h.blocked x hx]
  | prune => exact Iff.rfl

/-! ## One more evaluation -/

/-- One that is no first offence leaves the entries as they are. -/
theorem Tracked.add (hinstant : x.instant = run.now) (hfirst : x.again = false → x.verdict ≠ .abusive)
    (hagain : ∀ fingerprint code, x.Offends fingerprint code → x.again = true →
      ∃ y ∈ run.past, y.Offends fingerprint code ∧ y.again = false ∧ run.now - y.instant < day)
    (hblocked : x.action = .block ↔ x.again = true) : Tracked { run with past := x :: run.past } where
  same := h.same
  past_le := List.forall_mem_cons.mpr ⟨Nat.le_of_eq hinstant, h.past_le⟩
  recorded fingerprint code last hlookup := by
    obtain ⟨y, hy, hyo⟩ := h.recorded fingerprint code last hlookup
    exact ⟨y, List.mem_cons_of_mem x hy, hyo⟩
  latest := List.forall_mem_cons.mpr
    ⟨fun _ _ hoffends hnew => absurd hoffends.2.2 (hfirst hnew), h.latest⟩
  alone := by
    intro y hy z hz fingerprint code hyo hzo hnew hlt
    rcases List.mem_cons.mp hy with rfl | hyold
    · exact absurd hyo.2.2 (hfirst hnew)
    · rcases List.mem_cons.mp hz with rfl | hzold
      · have hle := h.past_le y hyold
        omega
      · exact h.alone y hyold z hzold fingerprint code hyo hzo hnew hlt
  anchored := by
    intro y hy fingerprint code hyo hrepeat
    rcases List.mem_cons.mp hy with rfl | hy
    · obtain ⟨z, hz, hzo, hnew, hlt⟩ := hagain fingerprint code hyo hrepeat
      rw [← hinstant] at hlt
      exact ⟨z, List.mem_cons_of_mem _ hz, hzo, hnew, hlt⟩
    · obtain ⟨z, hz, hanchor⟩ := h.anchored y hy fingerprint code hyo hrepeat
      exact ⟨z, List.mem_cons_of_mem x hz, hanchor⟩
  blocked := List.forall_mem_cons.mpr ⟨hblocked, h.blocked⟩

/-- A first offence takes the entry. -/
theorem Tracked.add_first {policy : ResponsePolicy}
    (hsame : SameWhenFresh run.now policy { run.unpruned with
      cooldowns := run.unpruned.cooldowns.insert (fingerprint, code) run.now })
    (hnone : run.abusiveBefore fingerprint code = false) {action : Action} (haction : action ≠ .block) :
    Tracked { run with
      policy
      unpruned := { run.unpruned with
        cooldowns := run.unpruned.cooldowns.insert (fingerprint, code) run.now }
      past := ⟨run.now, fingerprint, code, .abusive, action, false⟩ :: run.past } where
  same := hsame
  past_le := List.forall_mem_cons.mpr ⟨Nat.le_refl _, h.past_le⟩
  recorded fp c last hlookup := by
    dsimp only at hlookup
    rw [Table.lookup_insert] at hlookup
    split at hlookup
    · next heq =>
      obtain ⟨rfl, rfl⟩ := Prod.mk.inj heq
      obtain rfl := Option.some.inj hlookup
      exact ⟨_, List.mem_cons_self, ⟨rfl, rfl, rfl⟩, rfl, rfl⟩
    · obtain ⟨y, hy, hyo⟩ := h.recorded fp c last hlookup
      exact ⟨y, List.mem_cons_of_mem _ hy, hyo⟩
  latest := by
    intro y hy fp c hyo hnew
    dsimp only
    rw [Table.lookup_insert]
    rcases List.mem_cons.mp hy with rfl | hyold
    · obtain ⟨rfl, rfl, -⟩ := hyo
      exact ⟨run.now, if_pos rfl, Nat.le_refl _⟩
    · split
      · exact ⟨run.now, rfl, h.past_le y hyold⟩
      · exact h.latest y hyold fp c hyo hnew
  alone := by
    intro y hy z hz fp c hyo hzo hnew hlt
    rcases List.mem_cons.mp hy with rfl | hyold
    · rcases List.mem_cons.mp hz with rfl | hzold
      · exact absurd hlt (Nat.lt_irrefl _)
      · obtain ⟨rfl, rfl, -⟩ := hyo
        have hold : ¬ run.now - z.instant < day := fun hnear =>
          Bool.false_ne_true (hnone.symm.trans (abusiveBefore_iff.mpr ⟨z, hzold, hzo, hnear⟩))
        exact Nat.le_of_not_lt hold
    · rcases List.mem_cons.mp hz with rfl | hzold
      · exact absurd (h.past_le y hyold) (Nat.not_le_of_lt hlt)
      · exact h.alone y hyold z hzold fp c hyo hzo hnew hlt
  anchored := by
    intro y hy fp c hyo hrepeat
    rcases List.mem_cons.mp hy with rfl | hy
    · exact absurd hrepeat Bool.false_ne_true
    · obtain ⟨z, hz, hanchor⟩ := h.anchored y hy fp c hyo hrepeat
      exact ⟨z, List.mem_cons_of_mem _ hz, hanchor⟩
  blocked := List.forall_mem_cons.mpr
    ⟨iff_of_false haction Bool.false_ne_true, h.blocked⟩

/-- A verdict that is not abusive. -/
theorem Tracked.add_harmless {verdict : Verdict} {action : Action} (hverdict : verdict ≠ .abusive)
    (haction : action ≠ .block) : Tracked { run with
      past := ⟨run.now, fingerprint, code, verdict, action, false⟩ :: run.past } :=
  h.add rfl (fun _ => hverdict) (fun _ _ _ hagain => absurd hagain Bool.false_ne_true)
    (iff_of_false haction Bool.false_ne_true)

theorem Tracked.take {call : PolicyCall} (hok : run.EscalatesNow call) : Tracked (run.take call) := by
  cases call with
  | evaluate fingerprint code verdict =>
      have hallow : Action.allow ≠ .block := by decide
      have hthrottle : Action.throttle ≠ .block := by decide
      cases verdict with
      | legitimate => exact h.add_harmless (by decide) hallow
      | suspect => exact h.add_harmless (by decide) hthrottle
      | abusive =>
          have hright : run.policy.isRepeat fingerprint code run.now =
              run.abusiveBefore fingerprint code := by
            rw [Bool.eq_iff_iff, ← evaluate_eq_block_iff, abusiveBefore_iff]
            exact hok.1 rfl
          have heq := h.same.isRepeat_eq fingerprint code
          have hsame := (h.same.evaluate fingerprint code .abusive).2
          cases hrepeat : run.policy.isRepeat fingerprint code run.now with
          | true =>
              have htake : run.take (.evaluate fingerprint code .abusive) = { run with
                  past := ⟨run.now, fingerprint, code, .abusive, .block, true⟩ :: run.past } := by
                rw [PolicyRun.take, evaluate_of_isRepeat hrepeat,
                  evaluate_of_isRepeat (heq.symm.trans hrepeat), ← hright, hrepeat]
                rfl
              rw [htake]
              refine h.add rfl (fun hfirst => absurd hfirst.symm Bool.false_ne_true) ?_
                (iff_of_true rfl rfl)
              rintro fp c ⟨rfl, rfl, -⟩ -
              exact h.isRepeat_iff.mp hrepeat
          | false =>
              have htake : run.take (.evaluate fingerprint code .abusive) = { run with
                  policy := { run.policy with
                    cooldowns := run.policy.cooldowns.insert (fingerprint, code) run.now }
                  unpruned := { run.unpruned with
                    cooldowns := run.unpruned.cooldowns.insert (fingerprint, code) run.now }
                  past := ⟨run.now, fingerprint, code, .abusive,
                    .close ⟨code, "Tier G enforcement: " ++ code.debug⟩, false⟩ :: run.past } := by
                rw [PolicyRun.take, evaluate_of_not_isRepeat hrepeat,
                  evaluate_of_not_isRepeat (heq.symm.trans hrepeat), ← hright, hrepeat]
                rfl
              rw [evaluate_of_not_isRepeat hrepeat,
                evaluate_of_not_isRepeat (heq.symm.trans hrepeat)] at hsame
              rw [htake]
              exact h.add_first hsame (hright.symm.trans hrepeat) (fun hblock => by cases hblock)
  | isBlocked fingerprint => exact h
  | prune => exact h.prune

end

/-- The policy escalates as it should throughout the runs that keep to the condition. -/
theorem escalates_iff (now : ℕ) (events : List PolicyEvent) :
    EachStep step Escalates (start now) events ↔ EachStep step OneDayAtATime (start now) events := by
  have hiff (run : PolicyRun) (e : PolicyEvent) (h : Tracked run) :
      run.Escalates e ↔ run.OneDayAtATime e := (h.wait e.elapsed).escalatesNow_iff e.call
  have hstep (run : PolicyRun) (e : PolicyEvent) (h : Tracked run) (hok : run.Escalates e) :
      Tracked (run.step e) := (h.wait e.elapsed).take hok
  constructor
  · exact EachStep.imp hstep (fun run e h => (hiff run e h).mp) (tracked_start now)
  · exact EachStep.imp (fun run e h hok => hstep run e h ((hiff run e h).mpr hok))
      (fun run e h => (hiff run e h).mpr) (tracked_start now)

/-- An hour, in nanoseconds. -/
def hour : ℕ := 3600 * 1000000000

/-- A single offence shows as blocked, and one five hours after the one before it, which was
blocked, is taken for a first one. -/
theorem two_ways_to_fail :
    ¬ EachStep step Escalates (start 0)
      [⟨0, .evaluate "alice" .bitrate .abusive⟩, ⟨hour, .isBlocked "alice"⟩] ∧
    ¬ EachStep step Escalates (start 0)
      [⟨0, .evaluate "alice" .bitrate .abusive⟩, ⟨20 * hour, .evaluate "alice" .bitrate .abusive⟩,
        ⟨5 * hour, .evaluate "alice" .bitrate .abusive⟩] := by
  constructor
  · intro h
    obtain ⟨x, hx, -, hblock, -⟩ := h.2.1.1.mp (by decide +kernel)
    obtain rfl := List.mem_singleton.mp hx
    exact absurd hblock (by decide +kernel)
  · intro h
    have hblock := (h.2.2.1.1 rfl).mpr
      ⟨_, List.mem_cons_self, ⟨rfl, rfl, rfl⟩, by decide +kernel⟩
    exact absurd hblock (by decide +kernel)

end PolicyRun

end Wzp.Relay
