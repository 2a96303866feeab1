import Wzp.Lib.FirstMatch
import Wzp.Lib.Runs

/-!
# The call history

One entry a call, the newest last. A signal for a call that has an entry
changes the entry where it stands.
-/
namespace Wzp.Desktop
open Runs

def maxEntries : ℕ := 200

inductive CallDirection where
  | placed
  | received
  | missed
  deriving DecidableEq, Repr

structure CallHistoryEntry where
  callId : String
  peerFp : String
  peerAlias : Option String
  direction : CallDirection
  timestampUnix : ℕ
  deriving DecidableEq, Repr

namespace CallHistory

abbrev Store := List CallHistoryEntry

def hasId (callId : String) (e : CallHistoryEntry) : Bool := e.callId == callId

/-- The last entry that satisfies `p`, changed in place. -/
def updateNewest (p : CallHistoryEntry → Bool) (f : CallHistoryEntry → CallHistoryEntry)
    (store : Store) : Store :=
  (FirstMatch.update p f store.reverse).reverse

def log (store : Store) (entry : CallHistoryEntry) : Store :=
  match store.reverse.find? (hasId entry.callId) with
  | some _ => updateNewest (hasId entry.callId)
      (fun e => { e with direction := entry.direction, timestampUnix := entry.timestampUnix }) store
  | none =>
      let store := store ++ [entry]
      if store.length > maxEntries then store.drop (store.length - maxEntries) else store

/-- Newest first. -/
def all (store : Store) : List CallHistoryEntry := store.reverse

def isPending (callId : String) (e : CallHistoryEntry) : Bool :=
  e.callId == callId && e.direction == .missed

def markReceived (e : CallHistoryEntry) : CallHistoryEntry := { e with direction := .received }

def markReceivedIfPending (store : Store) (callId : String) : Bool × Store :=
  match store.reverse.find? (isPending callId) with
  | some _ => (true, updateNewest (isPending callId) markReceived store)
  | none => (false, store)

inductive Event where
  | log (entry : CallHistoryEntry)
  | markReceivedIfPending (callId : String)
  | clear

/-- The store, and the time of the last entry logged. -/
structure State where
  store : Store
  clock : ℕ

def step (s : State) : Event → State
  | .log entry => ⟨log s.store entry, entry.timestampUnix⟩
  | .markReceivedIfPending callId => { s with store := (markReceivedIfPending s.store callId).2 }
  | .clear => { s with store := [] }

/-! ## What the store promises -/

structure Truthful (store : Store) : Prop where
  unique : ((all store).map CallHistoryEntry.callId).Nodup
  bounded : (all store).length ≤ maxEntries
  newestFirst : (all store).Pairwise fun e e' => e'.timestampUnix ≤ e.timestampUnix

/-- A call that was placed or received does not turn into a missed one. -/
def KeepsAnswered (s : State) (ev : Event) : Prop :=
  ∀ e ∈ all s.store, e.direction ≠ .missed →
    ∀ e' ∈ all (step s ev).store, e'.callId = e.callId → e'.direction ≠ .missed

/-- The clock does not go back. -/
def Forward (s : State) : Event → Prop
  | .log entry => s.clock ≤ entry.timestampUnix
  | .markReceivedIfPending _ => True
  | .clear => True

/-- A call that has an entry is logged as missed only if it is a missed one, and
no other entry logged since is older than the new time. -/
def Harmless (s : State) : Event → Prop
  | .log entry => ∀ e, (all s.store).find? (hasId entry.callId) = some e →
      (entry.direction = .missed → e.direction = .missed) ∧
        ∀ e' ∈ (all s.store).takeWhile (fun e' => !hasId entry.callId e'),
          entry.timestampUnix ≤ e'.timestampUnix
  | .markReceivedIfPending _ => True
  | .clear => True

/-! ## The store, newest first -/

variable {store : Store} {entry e : CallHistoryEntry} {callId : String} {s : State}

def relog (entry e : CallHistoryEntry) : CallHistoryEntry :=
  { e with direction := entry.direction, timestampUnix := entry.timestampUnix }

theorem all_log_of_some (h : (all store).find? (hasId entry.callId) = some e) :
    all (log store entry) = FirstMatch.update (hasId entry.callId) (relog entry) (all store) := by
  rw [all] at h
  rw [log, h, all, all]
  exact List.reverse_reverse _

theorem all_log_of_none (h : (all store).find? (hasId entry.callId) = none) :
    all (log store entry) = (entry :: all store).take maxEntries := by
  have hall : entry :: all store = (store ++ [entry]).reverse := by
    rw [List.reverse_append, List.reverse_singleton, List.singleton_append, all]
  rw [all] at h
  rw [hall, log, h, all]
  dsimp only
  split
  · rw [List.take_reverse]
  · next hfits =>
      rw [List.take_of_length_le]
      rw [List.length_reverse]
      exact Nat.le_of_not_lt hfits

theorem all_markReceivedIfPending (store : Store) (callId : String) :
    all (markReceivedIfPending store callId).2 =
      FirstMatch.update (isPending callId) markReceived (all store) := by
  rw [markReceivedIfPending, all, all]
  split
  · exact List.reverse_reverse _
  · next h => rw [FirstMatch.update_eq_self h]

/-! ## One step -/

theorem hasId_iff : hasId callId e = true ↔ e.callId = callId := beq_iff_eq

theorem markReceived_times (p : CallHistoryEntry → Bool) (l : List CallHistoryEntry) :
    (FirstMatch.update p markReceived l).map CallHistoryEntry.timestampUnix =
      l.map CallHistoryEntry.timestampUnix :=
  FirstMatch.map_update fun _ => rfl

/-- No entry is newer than the clock. -/
def Past (s : State) : Prop := ∀ e ∈ all s.store, e.timestampUnix ≤ s.clock

/-- One entry a call, not too many, none from the future. -/
structure Inv (s : State) : Prop where
  unique : ((all s.store).map CallHistoryEntry.callId).Nodup
  bounded : (all s.store).length ≤ maxEntries
  past : Past s

/-- An entry that is changed stays the entry of its call. -/
theorem inv_of_update (h : Inv s) {t : State} {p : CallHistoryEntry → Bool}
    {f : CallHistoryEntry → CallHistoryEntry}
    (hall : all t.store = FirstMatch.update p f (all s.store)) (hid : ∀ e, (f e).callId = e.callId)
    (hclock : s.clock ≤ t.clock) (htime : ∀ e ∈ all s.store, (f e).timestampUnix ≤ t.clock) :
    Inv t := by
  refine ⟨?_, ?_, ?_⟩
  · rw [hall, FirstMatch.map_update hid]
    exact h.unique
  · rw [hall, FirstMatch.length_update]
    exact h.bounded
  · intro e he
    rw [hall] at he
    rcases FirstMatch.mem_update he with hold | ⟨x, hx, rfl⟩
    · exact Nat.le_trans (h.past e hold) hclock
    · exact htime x (List.mem_of_find?_eq_some hx)

theorem inv_step (h : Inv s) {ev : Event} (hforward : Forward s ev) : Inv (step s ev) := by
  cases ev with
  | log entry =>
      cases hfind : (all s.store).find? (hasId entry.callId) with
      | some e =>
          exact inv_of_update h (all_log_of_some hfind) (fun _ => rfl) hforward
            fun _ _ => Nat.le_refl _
      | none =>
          have hall := all_log_of_none hfind
          refine ⟨?_, ?_, ?_⟩
          · rw [step, hall, List.map_take]
            refine List.Nodup.sublist (List.take_sublist _ _) (List.nodup_cons.mpr ⟨?_, h.unique⟩)
            intro hmem
            obtain ⟨e, he, hid⟩ := List.mem_map.mp hmem
            exact List.find?_eq_none.mp hfind e he (hasId_iff.mpr hid)
          · rw [step, hall, List.length_take]
            exact Nat.min_le_left _ _
          · intro e' he'
            rw [step, hall] at he'
            rcases List.mem_cons.mp (List.mem_of_mem_take he') with rfl | hold
            · exact Nat.le_refl _
            · exact Nat.le_trans (h.past e' hold) hforward
  | markReceivedIfPending callId =>
      exact inv_of_update h (all_markReceivedIfPending s.store callId) (fun _ => rfl)
        (Nat.le_refl _) h.past
  | clear => exact ⟨List.nodup_nil, Nat.zero_le _, fun e he => absurd he List.not_mem_nil⟩

/-- Two entries of one call are one entry. -/
theorem Inv.eq_of_callId (h : Inv s) {e e' : CallHistoryEntry} (he : e ∈ all s.store)
    (he' : e' ∈ all s.store) (hid : e'.callId = e.callId) : e' = e :=
  List.inj_on_of_nodup_map h.unique he' he hid

theorem keepsAnswered_log_iff (h : Inv s) (hfind : (all s.store).find? (hasId entry.callId) = some e) :
    KeepsAnswered s (.log entry) ↔ (entry.direction = .missed → e.direction = .missed) := by
  have hall := all_log_of_some hfind
  have he : e ∈ all s.store := List.mem_of_find?_eq_some hfind
  constructor
  · intro hkeeps hmissed
    by_contra hanswered
    have hmem : relog entry e ∈ all (step s (.log entry)).store := by
      rw [step, hall]
      exact FirstMatch.mem_update_of_find? hfind
    exact hkeeps e he hanswered (relog entry e) hmem rfl hmissed
  · intro hmissed x hx hanswered y hy hid
    rw [step, hall] at hy
    rcases FirstMatch.mem_update hy with hold | ⟨z, hz, rfl⟩
    · rw [h.eq_of_callId hx hold hid]
      exact hanswered
    · have hze : z = e := Option.some.inj (hz.symm.trans hfind)
      subst hze
      have hzx : z = x := h.eq_of_callId hx he hid
      subst hzx
      exact fun hlogged => hanswered (hmissed hlogged)

theorem newestFirst_log_iff (h : Inv s) (hs : Truthful s.store) (hforward : Forward s (.log entry))
    (hfind : (all s.store).find? (hasId entry.callId) = some e) :
    Truthful (step s (.log entry)).store ↔
      ∀ e' ∈ (all s.store).takeWhile (fun e' => !hasId entry.callId e'),
        entry.timestampUnix ≤ e'.timestampUnix := by
  have hnext := inv_step h hforward
  have hall := all_log_of_some hfind
  have hlatest : ∀ x ∈ all s.store, ∀ y ∈ all s.store,
      y.timestampUnix ≤ (relog entry x).timestampUnix :=
    fun _ _ y hy => Nat.le_trans (h.past y hy) hforward
  have hiff := FirstMatch.pairwise_update_iff (p := hasId entry.callId) hs.newestFirst hlatest
  rw [← hall] at hiff
  constructor
  · intro htruthful e' he'
    exact hiff.mp htruthful.newestFirst e hfind e' he'
  · intro hnewer
    refine ⟨hnext.unique, hnext.bounded, hiff.mpr fun _ _ e' he' => hnewer e' he'⟩

theorem step_iff (h : Inv s) (hs : Truthful s.store) {ev : Event} (hforward : Forward s ev) :
    Truthful (step s ev).store ∧ KeepsAnswered s ev ↔ Harmless s ev := by
  have hnext := inv_step h hforward
  cases ev with
  | log entry =>
      cases hfind : (all s.store).find? (hasId entry.callId) with
      | some e =>
          rw [keepsAnswered_log_iff h hfind, newestFirst_log_iff h hs hforward hfind, Harmless, hfind,
            and_comm]
          constructor
          · rintro hboth x hx
            rw [← Option.some.inj hx]
            exact hboth
          · intro hboth
            exact hboth e rfl
      | none =>
          have hall := all_log_of_none hfind
          refine ⟨fun _ e he => ?_, fun _ => ⟨⟨hnext.unique, hnext.bounded, ?_⟩, ?_⟩⟩
          · rw [hfind] at he
            exact absurd he.symm (Option.some_ne_none e)
          · rw [step, hall]
            refine List.Pairwise.sublist (List.take_sublist _ _) (List.pairwise_cons.mpr ⟨?_, hs.newestFirst⟩)
            exact fun e' he' => Nat.le_trans (h.past e' he') hforward
          · intro x hx hanswered y hy hid
            rw [step, hall] at hy
            rcases List.mem_cons.mp (List.mem_of_mem_take hy) with rfl | hold
            · exact absurd (hasId_iff.mpr hid.symm) (List.find?_eq_none.mp hfind x hx)
            · rw [h.eq_of_callId hx hold hid]
              exact hanswered
  | markReceivedIfPending callId =>
      have hall := all_markReceivedIfPending s.store callId
      refine ⟨fun _ => trivial, fun _ => ⟨⟨hnext.unique, hnext.bounded, ?_⟩, ?_⟩⟩
      · have htimes : (all (step s (.markReceivedIfPending callId)).store).map
            CallHistoryEntry.timestampUnix = (all s.store).map CallHistoryEntry.timestampUnix := by
          rw [step, hall, markReceived_times]
        have hsorted : ((all s.store).map CallHistoryEntry.timestampUnix).Pairwise (· ≥ ·) :=
          List.pairwise_map.mpr hs.newestFirst
        rw [← htimes] at hsorted
        exact List.pairwise_map.mp hsorted
      · intro x hx hanswered y hy hid
        rw [step, hall] at hy
        rcases FirstMatch.mem_update hy with hold | ⟨z, hz, rfl⟩
        · rw [h.eq_of_callId hx hold hid]
          exact hanswered
        · exact fun hmissed => CallDirection.noConfusion hmissed
  | clear =>
      refine ⟨fun _ => trivial, fun _ => ⟨⟨hnext.unique, hnext.bounded, List.Pairwise.nil⟩, ?_⟩⟩
      exact fun _ _ _ e' he' => absurd he' List.not_mem_nil

/-! ## The history stays truthful -/

theorem truthful_iff_harmless (s : State) (evs : List Event) (hs : Truthful s.store) (hpast : Past s)
    (hforward : EachStep step Forward s evs) :
    Throughout step (fun s => Truthful s.store) s evs ∧ EachStep step KeepsAnswered s evs ↔
      EachStep step Harmless s evs :=
  throughout_and_eachStep_iff (I := Inv) (fun _ _ h hf => inv_step h hf)
    (fun _ _ h hf ht => step_iff h ht hf) ⟨hs.unique, hs.bounded, hpast⟩ hforward hs

theorem answered_call_truthful :
    let s : State := ⟨[], 0⟩
    let evs : List Event :=
      [.log ⟨"a", "bob", none, .missed, 1⟩, .markReceivedIfPending "a",
        .log ⟨"b", "eve", none, .placed, 2⟩]
    Throughout step (fun s => Truthful s.store) s evs ∧ EachStep step KeepsAnswered s evs := by
  have hforward : EachStep step Forward (⟨[], 0⟩ : State)
      [.log ⟨"a", "bob", none, .missed, 1⟩, .markReceivedIfPending "a",
        .log ⟨"b", "eve", none, .placed, 2⟩] :=
    ⟨Nat.zero_le 1, trivial, Nat.le_succ 1, trivial⟩
  refine (truthful_iff_harmless ⟨[], 0⟩ _ ⟨List.nodup_nil, Nat.zero_le _, List.Pairwise.nil⟩
    (fun e he => absurd he List.not_mem_nil) hforward).mpr ?_
  refine ⟨fun e he => ?_, trivial, fun e he => ?_, trivial⟩
  · exact absurd he.symm (Option.some_ne_none e)
  · have hnone : (all (step (step ⟨[], 0⟩ (.log ⟨"a", "bob", none, .missed, 1⟩))
        (.markReceivedIfPending "a")).store).find? (hasId "b") = none := by decide +kernel
    exact absurd (he.symm.trans hnone) (Option.some_ne_none e)

/-- The offer of a call just placed comes back and turns it into a missed one. And
an offer repeated after another call leaves the older time in front. -/
theorem echoed_offer_missed :
    (¬ EachStep step KeepsAnswered (⟨[], 0⟩ : State)
      [.log ⟨"a", "bob", none, .placed, 1⟩, .log ⟨"a", "me", none, .missed, 1⟩]) ∧
    ¬ Throughout step (fun s => Truthful s.store) (⟨[], 0⟩ : State)
      [.log ⟨"a", "bob", none, .missed, 1⟩, .log ⟨"b", "eve", none, .missed, 2⟩,
        .log ⟨"a", "bob", none, .missed, 3⟩] := by
  constructor
  · rintro ⟨-, hkeeps, -⟩
    exact hkeeps ⟨"a", "bob", none, .placed, 1⟩ (by decide +kernel) (by decide)
      ⟨"a", "bob", none, .missed, 1⟩ (by decide +kernel) rfl rfl
  · rintro ⟨-, -, -, htruthful⟩
    have hstore : all (step (step (step ⟨[], 0⟩ (.log ⟨"a", "bob", none, .missed, 1⟩))
        (.log ⟨"b", "eve", none, .missed, 2⟩)) (.log ⟨"a", "bob", none, .missed, 3⟩)).store =
        [⟨"b", "eve", none, .missed, 2⟩, ⟨"a", "bob", none, .missed, 3⟩] := by decide +kernel
    have hsorted := htruthful.newestFirst
    rw [hstore] at hsorted
    have htimes := (List.pairwise_cons.mp hsorted).1 _ List.mem_cons_self
    exact absurd htimes (by decide)

end CallHistory
end Wzp.Desktop
