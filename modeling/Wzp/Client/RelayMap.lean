import Mathlib.Data.UInt
import Wzp.Client.Signals
import Wzp.Lib.Listing
import Wzp.Lib.Runs

/-!
# The relay map

The known relays with what their last probes measured, the nearest first.
-/
namespace Wzp.Client
open Listing Runs

structure RelayEntry (A : Type) where
  name : String
  addr : A
  region : Option String
  rttMs : Option UInt32
  /-- In nanoseconds. -/
  lastProbed : Option ℕ
  reachable : Bool
  deriving DecidableEq, Repr

structure RelayMap (A : Type) where
  entries : List (RelayEntry A)
  deriving DecidableEq, Repr

/-- What stands before the first such character, and what stands behind it. -/
def splitOnce (c : Char) (s : String) : Option (String × String) :=
  match s.toList.dropWhile (· ≠ c) with
  | [] => none
  | _ :: rest => some (String.ofList (s.toList.takeWhile (· ≠ c)), String.ofList rest)

namespace RelayEntry
variable {A : Type}

def sortKey (e : RelayEntry A) : UInt32 :=
  if e.reachable then e.rttMs.getD 0xFFFFFFFF else 0xFFFFFFFF

/-- The last probe was answered, in this time. -/
def Answers (e : RelayEntry A) (rttMs : UInt32) : Prop :=
  e.reachable = true ∧ e.rttMs = some rttMs

def stale (maxAge now : ℕ) (e : RelayEntry A) : Bool :=
  match e.lastProbed with
  | none => true
  | some t => maxAge < now - t

theorem sortKey_le (e : RelayEntry A) : e.sortKey.toNat ≤ 0xFFFFFFFF :=
  Nat.le_of_lt_succ e.sortKey.toNat_lt

theorem sortKey_answers {e : RelayEntry A} {rttMs : UInt32} (h : e.Answers rttMs) :
    e.sortKey = rttMs := by
  rw [sortKey, h.1, h.2]
  rfl

theorem stale_iff {e : RelayEntry A} {maxAge now : ℕ} :
    e.stale maxAge now = true ↔ ∀ t, e.lastProbed = some t → maxAge < now - t := by
  rw [stale]
  cases e.lastProbed with
  | none => simp
  | some t => simp

end RelayEntry

namespace RelayMap
variable {A : Type} [DecidableEq A]

def new : RelayMap A := ⟨[]⟩

def sort (m : RelayMap A) : RelayMap A :=
  ⟨m.entries.mergeSort fun e e' => e.sortKey ≤ e'.sortKey⟩

def upsert (name : String) (addr : A) (region : Option String) (m : RelayMap A) : RelayMap A :=
  match m.entries.find? fun e => e.addr = addr with
  | some _ =>
      ⟨updateAt RelayEntry.addr addr (fun e =>
        { e with name, region := if region.isSome then region else e.region }) m.entries⟩
  | none => ⟨m.entries ++ [⟨name, addr, region, none, none, false⟩]⟩

def updateRtt (addr : A) (rttMs : UInt32) (now : ℕ) (m : RelayMap A) : RelayMap A :=
  sort ⟨updateAt RelayEntry.addr addr (fun e =>
    { e with rttMs := some rttMs, lastProbed := some now, reachable := true }) m.entries⟩

def markUnreachable (addr : A) (now : ℕ) (m : RelayMap A) : RelayMap A :=
  sort ⟨updateAt RelayEntry.addr addr (fun e =>
    { e with reachable := false, lastProbed := some now }) m.entries⟩

def preferred (m : RelayMap A) : Option (RelayEntry A) :=
  m.entries.find? fun e => e.reachable && e.rttMs.isSome

/-- One relay of an acknowledgement, "name|addr". -/
def populateEntry [SocketAddr A] (m : RelayMap A) (entry : String) : RelayMap A :=
  match splitOnce '|' entry with
  | some (name, text) =>
      match SocketAddr.parse text with
      | some addr => m.upsert name addr none
      | none => m
  | none => m

def populateFromAck [SocketAddr A] (relays : List String) (m : RelayMap A) : RelayMap A :=
  relays.foldl populateEntry m

def needsReprobe (maxAge now : ℕ) (m : RelayMap A) : Bool :=
  m.entries.any (RelayEntry.stale maxAge now)

def staleEntries (maxAge now : ℕ) (m : RelayMap A) : List (String × A) :=
  (m.entries.filter (RelayEntry.stale maxAge now)).map fun e => (e.name, e.addr)

end RelayMap

/-! ## The story of one relay -/

/-- What can be heard of a relay. -/
inductive RelayNews (A : Type) where
  | listed (name : String) (addr : A) (region : Option String)
  | answered (addr : A) (rttMs : UInt32) (now : ℕ)
  | failed (addr : A) (now : ℕ)

inductive RelayMapOp (A : Type) where
  | upsert (name : String) (addr : A) (region : Option String)
  | updateRtt (addr : A) (rttMs : UInt32) (now : ℕ)
  | markUnreachable (addr : A) (now : ℕ)
  | populateFromAck (relays : List String)

variable {A : Type}

/-- The news in one entry of an acknowledgement. -/
def announced [SocketAddr A] (entry : String) : Option (RelayNews A) :=
  (splitOnce '|' entry).bind fun (name, text) =>
    (SocketAddr.parse text).map fun addr => .listed name addr none

def RelayMapOp.news [SocketAddr A] : RelayMapOp A → List (RelayNews A)
  | .upsert name addr region => [.listed name addr region]
  | .updateRtt addr rttMs now => [.answered addr rttMs now]
  | .markUnreachable addr now => [.failed addr now]
  | .populateFromAck relays => relays.filterMap announced

namespace RelayNews

def addr : RelayNews A → A
  | .listed _ a _ => a
  | .answered a _ _ => a
  | .failed a _ => a

/-- What is known of a relay after news of it. A probe of an unlisted relay is not kept. -/
def tell (known : Option (RelayEntry A)) : RelayNews A → Option (RelayEntry A)
  | .listed name addr region =>
      match known with
      | some e => some { e with name, region := region.or e.region }
      | none => some ⟨name, addr, region, none, none, false⟩
  | .answered _ rttMs now =>
      known.map fun e => { e with rttMs := some rttMs, lastProbed := some now, reachable := true }
  | .failed _ now => known.map fun e => { e with reachable := false, lastProbed := some now }

variable [DecidableEq A]

/-- The story of the relay at an address, whatever else is heard. -/
def story (a : A) (known : Option (RelayEntry A)) (n : RelayNews A) : Option (RelayEntry A) :=
  if n.addr = a then n.tell known else known

theorem story_eq (known : A → Option (RelayEntry A)) (n : RelayNews A) :
    (fun a => n.story a (known a)) = Function.update known n.addr (n.tell (known n.addr)) := by
  funext a
  by_cases h : n.addr = a
  · subst h
    simp [story]
  · simp [story, h, Function.update_of_ne (Ne.symm h)]

end RelayNews

namespace RelayMap

/-- One entry for each relay that was listed, with its story, sorted. -/
structure Tracks (m : RelayMap A) (known : A → Option (RelayEntry A)) : Prop where
  lists : Lists RelayEntry.addr m.entries known
  sorted : m.entries.Pairwise fun e e' => e.sortKey.toNat ≤ e'.sortKey.toNat
  measured : ∀ a e, known a = some e → e.reachable = true → e.rttMs.isSome = true

variable {m : RelayMap A} {known : A → Option (RelayEntry A)}

theorem tracks_new : Tracks (new : RelayMap A) fun _ => none :=
  ⟨lists_nil, List.Pairwise.nil, fun _ _ h => by cases h⟩

theorem sorted_sort (m : RelayMap A) :
    m.sort.entries.Pairwise fun e e' => e.sortKey.toNat ≤ e'.sortKey.toNat := by
  have hsorted := @List.pairwise_mergeSort (RelayEntry A)
    (fun e e' => decide (e.sortKey ≤ e'.sortKey)) ?_ ?_ m.entries
  · exact hsorted.imp fun h => UInt32.le_iff_toNat_le.mp (of_decide_eq_true h)
  · intro a b c hab hbc
    exact decide_eq_true (UInt32.le_trans (of_decide_eq_true hab) (of_decide_eq_true hbc))
  · intro a b
    simpa using UInt32.le_total a.sortKey b.sortKey

variable [DecidableEq A]

/-- News of one relay keep every reachable relay measured. -/
theorem measured_story (n : RelayNews A)
    (h : ∀ a e, known a = some e → e.reachable = true → e.rttMs.isSome = true) :
    ∀ a e, n.story a (known a) = some e → e.reachable = true → e.rttMs.isSome = true := by
  intro a e he hreach
  rw [RelayNews.story] at he
  split at he
  · cases n with
    | listed name addr region =>
        cases hk : known a with
        | none =>
            simp only [hk, RelayNews.tell, Option.some.injEq] at he
            subst he
            cases hreach
        | some e' =>
            simp only [hk, RelayNews.tell, Option.some.injEq] at he
            subst he
            exact h a e' hk hreach
    | answered addr rttMs now =>
        obtain ⟨e', -, rfl⟩ := Option.map_eq_some_iff.mp he
        rfl
    | failed addr now =>
        obtain ⟨e', -, rfl⟩ := Option.map_eq_some_iff.mp he
        cases hreach
  · exact h a e he hreach

theorem Tracks.of_sort {m' : RelayMap A} {n : RelayNews A} (h : m.Tracks known)
    (hlists : Lists RelayEntry.addr m'.entries fun a => n.story a (known a)) :
    m'.sort.Tracks fun a => n.story a (known a) :=
  ⟨hlists.perm (List.mergeSort_perm _ _), sorted_sort m', measured_story n h.measured⟩

theorem Tracks.upsert (h : m.Tracks known) (name : String) (addr : A) (region : Option String) :
    (m.upsert name addr region).Tracks fun a =>
      (RelayNews.listed name addr region).story a (known a) := by
  refine ⟨?_, ?_, measured_story _ h.measured⟩
  · rw [RelayNews.story_eq, RelayMap.upsert, h.lists.find? addr]
    cases hk : known addr with
    | none =>
        simp only [RelayNews.addr, RelayNews.tell, hk]
        apply h.lists.concat
        exact hk
    | some e =>
        have hregion : (if region.isSome then region else e.region) = region.or e.region := by
          cases region <;> rfl
        have hnext := h.lists.updateAt (f := fun e : RelayEntry A =>
          { e with name, region := if region.isSome then region else e.region }) (fun _ => rfl) addr
        simpa only [RelayNews.addr, RelayNews.tell, hk, Option.map_some, hregion] using hnext
  · rw [RelayMap.upsert]
    split
    · apply pairwise_updateAt _ h.sorted
      intro e
      rfl
    · refine List.pairwise_append.mpr ⟨h.sorted, List.pairwise_singleton _ _, ?_⟩
      intro e _ e' he'
      obtain rfl := List.mem_singleton.mp he'
      exact RelayEntry.sortKey_le e

theorem Tracks.updateRtt (h : m.Tracks known) (addr : A) (rttMs : UInt32) (now : ℕ) :
    (m.updateRtt addr rttMs now).Tracks fun a =>
      (RelayNews.answered addr rttMs now).story a (known a) := by
  apply h.of_sort
  rw [RelayNews.story_eq]
  apply h.lists.updateAt
  intro e
  rfl

theorem Tracks.markUnreachable (h : m.Tracks known) (addr : A) (now : ℕ) :
    (m.markUnreachable addr now).Tracks fun a =>
      (RelayNews.failed addr now).story a (known a) := by
  apply h.of_sort
  rw [RelayNews.story_eq]
  apply h.lists.updateAt
  intro e
  rfl

variable [SocketAddr A]

theorem Tracks.populateFromAck (h : m.Tracks known) (relays : List String) :
    (m.populateFromAck relays).Tracks fun a =>
      run (RelayNews.story a) (known a) (relays.filterMap announced) := by
  induction relays generalizing m known with
  | nil => exact h
  | cons entry relays ih =>
      rw [RelayMap.populateFromAck, List.foldl_cons, List.filterMap_cons, populateEntry, announced]
      cases splitOnce '|' entry with
      | none => exact ih h
      | some parts =>
          obtain ⟨name, text⟩ := parts
          simp only [Option.bind_some]
          cases (SocketAddr.parse text : Option A) with
          | none => exact ih h
          | some addr => exact ih (h.upsert name addr none)

def step (m : RelayMap A) : RelayMapOp A → RelayMap A
  | .upsert name addr region => m.upsert name addr region
  | .updateRtt addr rttMs now => m.updateRtt addr rttMs now
  | .markUnreachable addr now => m.markUnreachable addr now
  | .populateFromAck relays => m.populateFromAck relays

theorem Tracks.step (h : m.Tracks known) (op : RelayMapOp A) :
    (m.step op).Tracks fun a => run (RelayNews.story a) (known a) op.news := by
  cases op with
  | upsert name addr region => exact h.upsert name addr region
  | updateRtt addr rttMs now => exact h.updateRtt addr rttMs now
  | markUnreachable addr now => exact h.markUnreachable addr now
  | populateFromAck relays => exact h.populateFromAck relays

theorem Tracks.run (h : m.Tracks known) (ops : List (RelayMapOp A)) :
    (Runs.run RelayMap.step m ops).Tracks fun a =>
      Runs.run (RelayNews.story a) (known a) (ops.flatMap RelayMapOp.news) := by
  induction ops generalizing m known with
  | nil => exact h
  | cons op ops ih =>
      simp only [Runs.run, List.flatMap_cons, List.foldl_cons, List.foldl_append]
      exact ih (h.step op)

/-! ## The nearest relay -/
omit [DecidableEq A] [SocketAddr A]

theorem Tracks.preferred_eq_none (h : m.Tracks known) :
    m.preferred = none ↔ ∀ a e, known a = some e → e.reachable = false := by
  simp only [preferred, List.find?_eq_none]
  constructor
  · intro hnone a e he
    by_contra hreach
    have hreach := Bool.eq_true_of_not_eq_false hreach
    exact hnone e (h.lists.mem he) (by rw [hreach, h.measured a e he hreach]; rfl)
  · intro hnone e he hreach
    rw [hnone e.addr e (h.lists.of_mem he)] at hreach
    cases hreach

theorem Tracks.preferred_nearest (h : m.Tracks known) {e : RelayEntry A}
    (he : m.preferred = some e) : known e.addr = some e ∧ ∃ rttMs, e.Answers rttMs ∧
      ∀ a e' rttMs', known a = some e' → e'.Answers rttMs' → rttMs ≤ rttMs' := by
  obtain ⟨hgood, before, behind, hsplit, hbefore⟩ := List.find?_eq_some_iff_append.mp he
  obtain ⟨hreach, hmeasured⟩ := Bool.and_eq_true_iff.mp hgood
  obtain ⟨rttMs, hrtt⟩ := Option.isSome_iff_exists.mp hmeasured
  have hmem : e ∈ m.entries := by
    rw [hsplit]
    exact List.mem_append_right _ List.mem_cons_self
  refine ⟨h.lists.of_mem hmem, rttMs, ⟨hreach, hrtt⟩, ?_⟩
  intro a e' rttMs' hknown hanswers
  have hmem' := h.lists.mem hknown
  have hsorted := h.sorted
  rw [hsplit] at hmem' hsorted
  rcases List.mem_append.mp hmem' with hin | hin
  · have hskipped := hbefore e' hin
    simp [hanswers.1, hanswers.2] at hskipped
  · rcases List.mem_cons.mp hin with rfl | hin
    · exact UInt32.le_of_eq (Option.some.inj (hrtt.symm.trans hanswers.2))
    · have hle := (List.pairwise_cons.mp (List.pairwise_append.mp hsorted).2.1).1 e' hin
      rw [RelayEntry.sortKey_answers ⟨hreach, hrtt⟩, RelayEntry.sortKey_answers hanswers] at hle
      exact UInt32.le_iff_toNat_le.mpr hle

theorem Tracks.mem_staleEntries (h : m.Tracks known) (maxAge now : ℕ) (name : String) (a : A) :
    (name, a) ∈ m.staleEntries maxAge now ↔
      ∃ e, known a = some e ∧ e.name = name ∧ ∀ t, e.lastProbed = some t → maxAge < now - t := by
  simp only [staleEntries, List.mem_map, List.mem_filter, Prod.mk.injEq, RelayEntry.stale_iff]
  constructor
  · rintro ⟨e, ⟨he, hstale⟩, hname, hkey⟩
    exact ⟨e, (h.lists.mem_iff e a).mp ⟨he, hkey⟩, hname, hstale⟩
  · rintro ⟨e, he, hname, hstale⟩
    exact ⟨e, ⟨h.lists.mem he, hstale⟩, hname, h.lists.key_eq he⟩

theorem Tracks.needsReprobe_iff (h : m.Tracks known) (maxAge now : ℕ) :
    m.needsReprobe maxAge now = true ↔
      ∃ a e, known a = some e ∧ ∀ t, e.lastProbed = some t → maxAge < now - t := by
  simp only [needsReprobe, List.any_eq_true, RelayEntry.stale_iff]
  constructor
  · rintro ⟨e, he, hstale⟩
    exact ⟨e.addr, e, h.lists.of_mem he, hstale⟩
  · rintro ⟨a, e, he, hstale⟩
    exact ⟨e, h.lists.mem he, hstale⟩

/-- After every run each listed relay has one entry, with the story of that relay alone, and
the entries stand by latency. The preferred relay is one that answered its last probe, none of
those that did has a lower latency, and there is one unless none did. Asked to probe again are
the relays without a recent probe. -/
theorem relay_map_prefers_nearest [DecidableEq A] [SocketAddr A] (ops : List (RelayMapOp A)) :
    let m := run RelayMap.step new ops
    let known := fun a => run (RelayNews.story a) none (ops.flatMap RelayMapOp.news)
    (m.entries.map RelayEntry.addr).Nodup ∧
      (∀ e a, e ∈ m.entries ∧ e.addr = a ↔ known a = some e) ∧
      (m.entries.Pairwise fun e e' => e.sortKey ≤ e'.sortKey) ∧
      (m.preferred = none ↔ ∀ a e, known a = some e → e.reachable = false) ∧
      (∀ e, m.preferred = some e → known e.addr = some e ∧ ∃ rttMs, e.Answers rttMs ∧
        ∀ a e' rttMs', known a = some e' → e'.Answers rttMs' → rttMs ≤ rttMs') ∧
      ∀ maxAge now,
        (∀ name a, (name, a) ∈ m.staleEntries maxAge now ↔ ∃ e, known a = some e ∧
          e.name = name ∧ ∀ t, e.lastProbed = some t → maxAge < now - t) ∧
        (m.needsReprobe maxAge now = true ↔
          ∃ a e, known a = some e ∧ ∀ t, e.lastProbed = some t → maxAge < now - t) := by
  intro m known
  have h : m.Tracks known := Tracks.run tracks_new ops
  refine ⟨h.lists.nodup, h.lists.mem_iff, ?_, h.preferred_eq_none, ?_, ?_⟩
  · exact h.sorted.imp fun hle => UInt32.le_iff_toNat_le.mpr hle
  · intro e he
    exact h.preferred_nearest he
  · intro maxAge now
    exact ⟨h.mem_staleEntries maxAge now, h.needsReprobe_iff maxAge now⟩

end RelayMap
end Wzp.Client
