import Mathlib.Data.Finset.Basic
import Wzp.Relay.LocalPresence

/-!
# Remote presence

Peer relays report which fingerprints are connected to them. The registry keeps
the latest report of each peer, and for a lookup one entry for each fingerprint,
which belongs to the peer that reported it last.
-/
namespace Wzp.Relay
open Runs

/-- A reading of the monotonic clock. -/
abbrev Instant := ℤ

inductive PresenceLocation (Addr : Type) where
  | local
  | remote (relayAddr : Addr)
  deriving DecidableEq, Repr

structure RemotePresence (Addr : Type) where
  fingerprint : String
  relayAddr : Addr
  lastSeen : Instant
  deriving DecidableEq, Repr

structure PeerRelay (Addr : Type) where
  addr : Addr
  fingerprints : Finset String
  lastUpdate : Instant
  deriving DecidableEq

structure GossipRegistry (Addr : Type) extends PresenceRegistry where
  remote : String → Option (RemotePresence Addr)
  peers : Addr → Option (PeerRelay Addr)

namespace GossipRegistry
variable {Addr : Type} [DecidableEq Addr]

def new : GossipRegistry Addr := ⟨⟨∅⟩, fun _ => none, fun _ => none⟩

/-- The peer's set is replaced, its fingerprints are taken over from whoever
reported them before. -/
def updatePeer (reg : GossipRegistry Addr) (now : Instant) (addr : Addr)
    (fingerprints : Finset String) : GossipRegistry Addr :=
  { reg with
    remote := fun fp =>
      if fp ∈ fingerprints then some ⟨fp, addr, now⟩
      else (reg.remote fp).filter fun rp => rp.relayAddr ≠ addr
    peers := Function.update reg.peers addr (some
      { (reg.peers addr).getD ⟨addr, ∅, now⟩ with
        fingerprints := fingerprints
        lastUpdate := now }) }

def lookup (reg : GossipRegistry Addr) (fp : String) : Option (PresenceLocation Addr) :=
  if fp ∈ reg.local then some .local
  else
    match reg.remote fp with
    | some rp => some (.remote rp.relayAddr)
    | none => none

def expireStale (reg : GossipRegistry Addr) (now : Instant) (timeout : ℕ) : GossipRegistry Addr :=
  let cutoff := now - timeout
  { reg with
    remote := fun fp => (reg.remote fp).filter fun rp => cutoff < rp.lastSeen
    peers := fun addr => (reg.peers addr).filter fun p => ¬ p.lastUpdate ≤ cutoff }

end GossipRegistry

inductive RegistryOp (Addr : Type) where
  | registerLocal (presence : LocalPresence)
  | unregisterLocal (fp : String)
  | updatePeer (addr : Addr) (fingerprints : Finset String)
  | expireStale (timeout : ℕ)

/-- What the registry has been told and when, the latest first. -/
abbrev RegistryLog (Addr : Type) := List (Instant × RegistryOp Addr)

namespace RegistryLog
variable {Addr : Type} [DecidableEq Addr]

/-- The latest update of a peer, unless it has expired since. -/
def latestUpdate (a : Addr) : RegistryLog Addr → Option (PeerRelay Addr)
  | [] => none
  | (now, .updatePeer addr fps) :: log =>
      if addr = a then some ⟨a, fps, now⟩ else latestUpdate a log
  | (now, .expireStale timeout) :: log =>
      (latestUpdate a log).filter fun p => now - timeout < p.lastUpdate
  | (_, .registerLocal _) :: log => latestUpdate a log
  | (_, .unregisterLocal _) :: log => latestUpdate a log

/-- The latest unexpired update of the peer contains the fingerprint. -/
def Reports (log : RegistryLog Addr) (a : Addr) (fp : String) : Prop :=
  ∃ p, latestUpdate a log = some p ∧ fp ∈ p.fingerprints

/-- The peer that was the last to report a fingerprint, at any time. -/
def lastReporter (fp : String) : RegistryLog Addr → Option Addr
  | [] => none
  | (_, .updatePeer addr fps) :: log => if fp ∈ fps then some addr else lastReporter fp log
  | (_, .expireStale _) :: log => lastReporter fp log
  | (_, .registerLocal _) :: log => lastReporter fp log
  | (_, .unregisterLocal _) :: log => lastReporter fp log

/-- The entry of a fingerprint in the log: that of its last reporter, as long as
this peer still reports it. -/
def entry (log : RegistryLog Addr) (fp : String) : Option (RemotePresence Addr) :=
  (lastReporter fp log).bind fun a => (latestUpdate a log).bind fun p =>
    if fp ∈ p.fingerprints then some ⟨fp, a, p.lastUpdate⟩ else none

def Ordered (log : RegistryLog Addr) : Prop := log.Pairwise fun later earlier => earlier.1 ≤ later.1

variable {log : RegistryLog Addr} {a b : Addr} {fp : String} {now : Instant}

theorem latestUpdate_addr {p : PeerRelay Addr} (h : latestUpdate a log = some p) : p.addr = a := by
  induction log with
  | nil => exact absurd h.symm (Option.some_ne_none p)
  | cons x log ih =>
      obtain ⟨now, op⟩ := x
      cases op with
      | registerLocal _ => exact ih h
      | unregisterLocal _ => exact ih h
      | updatePeer addr fps =>
          rw [latestUpdate] at h
          split at h
          · obtain rfl := Option.some.inj h
            rfl
          · exact ih h
      | expireStale timeout => exact ih (Option.filter_eq_some_iff.mp h).1

theorem entry_eq_some {rp : RemotePresence Addr} :
    entry log fp = some rp ↔ ∃ a p, lastReporter fp log = some a ∧ latestUpdate a log = some p ∧
      fp ∈ p.fingerprints ∧ rp = ⟨fp, a, p.lastUpdate⟩ := by
  simp only [entry, Option.bind_eq_some_iff, Option.ite_none_right_eq_some, Option.some.injEq,
    eq_comm (b := rp)]
  constructor
  · rintro ⟨a, ha, p, hp, hmem, heq⟩
    exact ⟨a, p, ha, hp, hmem, heq⟩
  · rintro ⟨a, p, ha, hp, hmem, heq⟩
    exact ⟨a, ha, p, hp, hmem, heq⟩

theorem lastReporter_isSome (h : Reports log a fp) : (lastReporter fp log).isSome := by
  obtain ⟨p, hp, hmem⟩ := h
  induction log with
  | nil => exact absurd hp.symm (Option.some_ne_none p)
  | cons x log ih =>
      obtain ⟨now, op⟩ := x
      cases op with
      | registerLocal _ => exact ih hp
      | unregisterLocal _ => exact ih hp
      | updatePeer addr fps =>
          rw [lastReporter]
          split
          · rfl
          · rename_i hnot
            rw [latestUpdate] at hp
            split at hp
            · obtain rfl := Option.some.inj hp
              exact absurd hmem hnot
            · exact ih hp
      | expireStale timeout => exact ih (Option.filter_eq_some_iff.mp hp).1

theorem lastUpdate_le {p : PeerRelay Addr} {later : Instant}
    (hlater : ∀ x ∈ log, x.1 ≤ later) (h : latestUpdate a log = some p) : p.lastUpdate ≤ later := by
  induction log with
  | nil => exact absurd h.symm (Option.some_ne_none p)
  | cons x log ih =>
      obtain ⟨now, op⟩ := x
      have hrest := fun y hy => hlater y (List.mem_cons_of_mem _ hy)
      cases op with
      | registerLocal _ => exact ih hrest h
      | unregisterLocal _ => exact ih hrest h
      | updatePeer addr fps =>
          rw [latestUpdate] at h
          split at h
          · obtain rfl := Option.some.inj h
            exact hlater _ List.mem_cons_self
          · exact ih hrest h
      | expireStale timeout => exact ih hrest (Option.filter_eq_some_iff.mp h).1

/-- The last reporter's update is the latest of all that contain the fingerprint. -/
theorem reported_before {r : Addr} {p q : PeerRelay Addr} (hlog : Ordered log)
    (hr : lastReporter fp log = some r) (hp : latestUpdate r log = some p)
    (hpmem : fp ∈ p.fingerprints) (hq : latestUpdate b log = some q) (hqmem : fp ∈ q.fingerprints) :
    q.lastUpdate ≤ p.lastUpdate := by
  induction log with
  | nil => exact absurd hp.symm (Option.some_ne_none p)
  | cons x log ih =>
      obtain ⟨now, op⟩ := x
      obtain ⟨hnow, hrest⟩ := List.pairwise_cons.mp hlog
      cases op with
      | registerLocal _ => exact ih hrest hr hp hq
      | unregisterLocal _ => exact ih hrest hr hp hq
      | updatePeer addr fps =>
          have hpast : ∀ x ∈ (now, RegistryOp.updatePeer addr fps) :: log, x.1 ≤ now := by
            intro x hx
            rcases List.mem_cons.mp hx with rfl | hx
            · exact le_refl _
            · exact hnow x hx
          have hle : q.lastUpdate ≤ now := lastUpdate_le hpast hq
          rw [latestUpdate] at hp hq
          rw [lastReporter] at hr
          by_cases hfps : fp ∈ fps
          · rw [if_pos hfps] at hr
            rw [if_pos (Option.some.inj hr)] at hp
            obtain rfl := Option.some.inj hp
            exact hle
          · rw [if_neg hfps] at hr
            by_cases hra : addr = r
            · rw [if_pos hra] at hp
              obtain rfl := Option.some.inj hp
              exact absurd hpmem hfps
            · rw [if_neg hra] at hp
              by_cases hba : addr = b
              · rw [if_pos hba] at hq
                obtain rfl := Option.some.inj hq
                exact absurd hqmem hfps
              · rw [if_neg hba] at hq
                exact ih hrest hr hp hq
      | expireStale timeout =>
          exact ih hrest hr (Option.filter_eq_some_iff.mp hp).1 (Option.filter_eq_some_iff.mp hq).1

end RegistryLog

/-- The registry of a relay, the time, and all that has happened to the registry. -/
structure GossipState (Addr : Type) where
  registry : GossipRegistry Addr
  clock : Instant
  log : RegistryLog Addr

/-- An operation and the time since the one before it. -/
structure GossipEvent (Addr : Type) where
  elapsed : ℕ
  op : RegistryOp Addr

namespace GossipState
variable {Addr : Type} [DecidableEq Addr]
open RegistryLog (latestUpdate lastReporter Reports)

def start (clock : Instant) : GossipState Addr := ⟨.new, clock, []⟩

def apply (reg : GossipRegistry Addr) (now : Instant) : RegistryOp Addr → GossipRegistry Addr
  | .registerLocal presence =>
      { reg with toPresenceRegistry := reg.toPresenceRegistry.registerLocal presence }
  | .unregisterLocal fp =>
      { reg with toPresenceRegistry := reg.toPresenceRegistry.unregisterLocal fp }
  | .updatePeer addr fps => reg.updatePeer now addr fps
  | .expireStale timeout => reg.expireStale now timeout

def step (s : GossipState Addr) (e : GossipEvent Addr) : GossipState Addr :=
  let now := s.clock + e.elapsed
  ⟨apply s.registry now e.op, now, (now, e.op) :: s.log⟩

/-- Fingerprints that are not local are found at a peer that reports them, if
there is one, and nowhere otherwise. -/
def LookupExact (s : GossipState Addr) : Prop :=
  ∀ fp, fp ∉ s.registry.local →
    match s.registry.lookup fp with
    | some (.remote a) => Reports s.log a fp
    | some .local => False
    | none => ∀ a, ¬ Reports s.log a fp

/-- Nobody reports the fingerprint once its last reporter does not. -/
def NotShadowed (s : GossipState Addr) (fp : String) : Prop :=
  ∀ a, lastReporter fp s.log = some a → ¬ Reports s.log a fp → ∀ b, ¬ Reports s.log b fp

/-- A peer stops reporting a fingerprint that is not local and that it was the
last to report only if no other peer reports it. A local fingerprint is not
unregistered while its last reporter does not report it and another peer does. -/
def KeepsReporter (s : GossipState Addr) (e : GossipEvent Addr) : Prop :=
  match e.op with
  | .updatePeer a fps => ∀ fp, fp ∉ s.registry.local → fp ∉ fps → lastReporter fp s.log = some a →
      ∀ b, b ≠ a → ¬ Reports s.log b fp
  | .unregisterLocal fp => fp ∈ s.registry.local → NotShadowed s fp
  | .registerLocal _ => True
  | .expireStale _ => True

/-! ## The registry and its log -/

/-- The two maps of the registry are functions of its log. -/
structure Tracks (s : GossipState Addr) : Prop where
  peers : ∀ a, s.registry.peers a = latestUpdate a s.log
  remote : ∀ fp, s.registry.remote fp = RegistryLog.entry s.log fp
  ordered : RegistryLog.Ordered s.log
  past : ∀ x ∈ s.log, x.1 ≤ s.clock

theorem start_tracks (clock : Instant) : Tracks (start clock : GossipState Addr) :=
  ⟨fun _ => rfl, fun _ => rfl, List.Pairwise.nil, fun _ hx => absurd hx List.not_mem_nil⟩

variable {s : GossipState Addr} {a b : Addr} {fp : String}

theorem reports_updatePeer {now : Instant} {fps : Finset String} (log : RegistryLog Addr) :
    Reports ((now, .updatePeer a fps) :: log) b fp ↔
      if a = b then fp ∈ fps else Reports log b fp := by
  unfold Reports
  rw [latestUpdate]
  split
  · constructor
    · rintro ⟨p, hp, hmem⟩
      obtain rfl := Option.some.inj hp
      exact hmem
    · exact fun hmem => ⟨_, rfl, hmem⟩
  · exact Iff.rfl

theorem reports_expireStale {now : Instant} {timeout : ℕ} (log : RegistryLog Addr) :
    Reports ((now, .expireStale timeout) :: log) b fp ↔
      ∃ p, latestUpdate b log = some p ∧ now - timeout < p.lastUpdate ∧ fp ∈ p.fingerprints := by
  unfold Reports
  rw [latestUpdate]
  simp only [Option.filter_eq_some_iff, decide_eq_true_eq, and_assoc]

theorem tracks_updatePeer (h : Tracks s) (now : Instant) (fps : Finset String) :
    (∀ c, (s.registry.updatePeer now a fps).peers c =
        latestUpdate c ((now, .updatePeer a fps) :: s.log)) ∧
      ∀ f, (s.registry.updatePeer now a fps).remote f =
        RegistryLog.entry ((now, .updatePeer a fps) :: s.log) f := by
  constructor
  · intro c
    rw [latestUpdate]
    by_cases hca : a = c
    · subst hca
      simp only [GossipRegistry.updatePeer, Function.update_self, h.peers, if_true]
      cases hu : latestUpdate a s.log with
      | none => rfl
      | some p =>
          have haddr := RegistryLog.latestUpdate_addr hu
          simp only [Option.getD_some, haddr]
    · simp only [GossipRegistry.updatePeer, Function.update_of_ne (Ne.symm hca), h.peers, if_neg hca]
  · intro f
    unfold GossipRegistry.updatePeer RegistryLog.entry
    rw [lastReporter]
    by_cases hf : f ∈ fps
    · simp only [if_pos hf, Option.bind_some, latestUpdate, if_true]
    · simp only [if_neg hf, h.remote, RegistryLog.entry]
      cases hr : lastReporter f s.log with
      | none => rfl
      | some r =>
          simp only [Option.bind_some, latestUpdate]
          by_cases har : a = r
          · simp only [if_pos har, Option.bind_some, if_neg hf]
            cases latestUpdate r s.log with
            | none => rfl
            | some p =>
                by_cases hp : f ∈ p.fingerprints
                · simp [hp, har]
                · simp [hp]
          · simp only [if_neg har]
            cases latestUpdate r s.log with
            | none => rfl
            | some p =>
                by_cases hp : f ∈ p.fingerprints
                · simp [hp, Ne.symm har]
                · simp [hp]

theorem tracks_expireStale (h : Tracks s) (now : Instant) (timeout : ℕ) :
    (∀ c, (s.registry.expireStale now timeout).peers c =
        latestUpdate c ((now, .expireStale timeout) :: s.log)) ∧
      ∀ f, (s.registry.expireStale now timeout).remote f =
        RegistryLog.entry ((now, .expireStale timeout) :: s.log) f := by
  constructor
  · intro c
    simp only [GossipRegistry.expireStale, h.peers, latestUpdate, not_le]
  · intro f
    simp only [GossipRegistry.expireStale, h.remote, RegistryLog.entry, lastReporter, latestUpdate]
    cases lastReporter f s.log with
    | none => rfl
    | some r =>
        simp only [Option.bind_some]
        cases latestUpdate r s.log with
        | none => rfl
        | some p =>
            by_cases hp : f ∈ p.fingerprints
            · by_cases hlate : now - timeout < p.lastUpdate
              · simp [hp, Option.filter_some, hlate]
              · simp [hp, Option.filter_some, hlate]
            · by_cases hlate : now - timeout < p.lastUpdate
              · simp [hp, Option.filter_some, hlate]
              · simp [hp, Option.filter_some, hlate]

theorem tracks_step (h : Tracks s) (e : GossipEvent Addr) : Tracks (s.step e) := by
  have hle : s.clock ≤ s.clock + e.elapsed := Int.le_add_of_nonneg_right (Int.natCast_nonneg _)
  have hordered : RegistryLog.Ordered ((s.clock + e.elapsed, e.op) :: s.log) :=
    List.pairwise_cons.mpr ⟨fun x hx => (h.past x hx).trans hle, h.ordered⟩
  have hpast : ∀ x ∈ (s.clock + e.elapsed, e.op) :: s.log, x.1 ≤ s.clock + e.elapsed := by
    intro x hx
    rcases List.mem_cons.mp hx with rfl | hx
    · exact le_refl _
    · exact (h.past x hx).trans hle
  obtain ⟨elapsed, op⟩ := e
  cases op with
  | registerLocal presence => exact ⟨h.peers, h.remote, hordered, hpast⟩
  | unregisterLocal f => exact ⟨h.peers, h.remote, hordered, hpast⟩
  | updatePeer a fps =>
      obtain ⟨hpeers, hremote⟩ := tracks_updatePeer h (a := a) (s.clock + elapsed) fps
      exact ⟨hpeers, hremote, hordered, hpast⟩
  | expireStale timeout =>
      obtain ⟨hpeers, hremote⟩ := tracks_expireStale h (s.clock + elapsed) timeout
      exact ⟨hpeers, hremote, hordered, hpast⟩

/-! ## Lookup -/

theorem remote_eq_none_iff (h : Tracks s) :
    s.registry.remote fp = none ↔ ∀ a, lastReporter fp s.log = some a → ¬ Reports s.log a fp := by
  rw [h.remote, Option.eq_none_iff_forall_ne_some]
  constructor
  · rintro hnone a ha ⟨p, hp, hmem⟩
    exact hnone _ (RegistryLog.entry_eq_some.mpr ⟨a, p, ha, hp, hmem, rfl⟩)
  · intro hno rp hrp
    obtain ⟨a, p, ha, hp, hmem, _⟩ := RegistryLog.entry_eq_some.mp hrp
    exact hno a ha ⟨p, hp, hmem⟩

theorem lookupExact_iff (h : Tracks s) :
    LookupExact s ↔ ∀ fp, fp ∉ s.registry.local → NotShadowed s fp := by
  refine forall_congr' fun fp => forall_congr' fun hlocal => ?_
  rw [GossipRegistry.lookup, if_neg hlocal]
  cases hr : s.registry.remote fp with
  | none =>
      have hno := (remote_eq_none_iff h).mp hr
      constructor
      · exact fun hnone _ _ _ => hnone
      · intro hshadow b hb
        obtain ⟨a, ha⟩ := Option.isSome_iff_exists.mp (RegistryLog.lastReporter_isSome hb)
        exact hshadow a ha (hno a ha) b hb
  | some rp =>
      obtain ⟨a, p, ha, hp, hmem, rfl⟩ := RegistryLog.entry_eq_some.mp ((h.remote fp).symm.trans hr)
      have hreports : Reports s.log a fp := ⟨p, hp, hmem⟩
      constructor
      · intro _ c hc hnot
        obtain rfl := Option.some.inj (ha.symm.trans hc)
        exact absurd hreports hnot
      · exact fun _ => hreports

theorem notShadowed_updatePeer (hold : NotShadowed s fp) (now : Instant) (fps : Finset String)
    (reg : GossipRegistry Addr) :
    NotShadowed ⟨reg, now, (now, .updatePeer a fps) :: s.log⟩ fp ↔
      (fp ∉ fps → lastReporter fp s.log = some a → ∀ b, b ≠ a → ¬ Reports s.log b fp) := by
  simp only [NotShadowed, lastReporter, reports_updatePeer]
  by_cases hf : fp ∈ fps
  · constructor
    · exact fun _ hnot => absurd hf hnot
    · intro _ c hc hnot
      rw [if_pos hf] at hc
      rw [if_pos (Option.some.inj hc)] at hnot
      exact absurd hf hnot
  · simp only [if_neg hf]
    constructor
    · intro hnew _ hlast b hb hreports
      refine hnew a hlast ?_ b ?_
      · rw [if_pos rfl]
        exact hf
      · rw [if_neg (Ne.symm hb)]
        exact hreports
    · intro hok c hc hnot b
      by_cases hab : a = b
      · rw [if_pos hab]
        exact hf
      · rw [if_neg hab]
        by_cases hac : a = c
        · subst hac
          exact hok hf hc b (Ne.symm hab)
        · rw [if_neg hac] at hnot
          exact hold c hc hnot b

theorem notShadowed_expireStale (h : Tracks s) (hold : NotShadowed s fp) (now : Instant)
    (timeout : ℕ) (reg : GossipRegistry Addr) :
    NotShadowed ⟨reg, now, (now, .expireStale timeout) :: s.log⟩ fp := by
  intro c hc hnot b hb
  obtain ⟨q, hq, hlate, hqmem⟩ := (reports_expireStale s.log).mp hb
  by_cases hreports : Reports s.log c fp
  · obtain ⟨p, hp, hpmem⟩ := hreports
    have hle := RegistryLog.reported_before h.ordered hc hp hpmem hq hqmem
    exact hnot ((reports_expireStale s.log).mpr ⟨p, hp, hlate.trans_le hle, hpmem⟩)
  · exact hold c hc hreports b ⟨q, hq, hqmem⟩

theorem lookupExact_step (h : Tracks s) (hold : LookupExact s) (e : GossipEvent Addr) :
    LookupExact (s.step e) ↔ KeepsReporter s e := by
  rw [lookupExact_iff (tracks_step h e)]
  rw [lookupExact_iff h] at hold
  obtain ⟨elapsed, op⟩ := e
  cases op with
  | registerLocal presence =>
      refine iff_of_true ?_ trivial
      intro f hf
      exact hold f fun hmem => hf ((AList.mem_insert _).mpr (Or.inr hmem))
  | unregisterLocal g =>
      have herase : ∀ f, f ∉ s.registry.local.erase g ↔ f = g ∨ f ∉ s.registry.local := by
        intro f
        rw [AList.mem_erase]
        tauto
      constructor
      · exact fun hnew _ => hnew g ((herase g).mpr (Or.inl rfl))
      · intro hok f hf
        rcases (herase f).mp hf with rfl | hf
        · by_cases hmem : f ∈ s.registry.local
          · exact hok hmem
          · exact hold f hmem
        · exact hold f hf
  | updatePeer a fps =>
      refine forall_congr' fun f => forall_congr' fun hf => ?_
      exact notShadowed_updatePeer (hold f hf) _ fps _
  | expireStale timeout =>
      refine iff_of_true ?_ trivial
      intro f hf
      exact notShadowed_expireStale h (hold f hf) _ timeout _

/-- Lookups are exact throughout the runs in which no peer that was the last to
report a fingerprint takes it back while another still reports it, neither in
the open nor behind a local client. -/
theorem remote_lookup_exact_iff (clock : Instant) (es : List (GossipEvent Addr)) :
    Throughout step LookupExact (start clock) es ↔ EachStep step KeepsReporter (start clock) es := by
  refine throughout_iff_eachStep (I := Tracks) (fun _ e h _ _ => tracks_step h e)
    (fun _ e h hold => lookupExact_step h hold e) (start_tracks clock) ?_
  rw [lookupExact_iff (start_tracks clock)]
  exact fun _ _ a ha => absurd ha.symm (Option.some_ne_none a)

/-- Two peers report a client, the second takes it back, and the first is not found. -/
theorem earlier_reporter_forgotten :
    ¬ Throughout step LookupExact (start 0)
      [⟨0, .updatePeer "a" {"client"}⟩, ⟨1, .updatePeer "b" {"client"}⟩, ⟨1, .updatePeer "b" ∅⟩] := by
  intro h
  refine h.last "client" List.not_mem_nil "a" ?_
  exact ⟨⟨"a", {"client"}, 0⟩, rfl, Finset.mem_singleton_self _⟩

end GossipState
end Wzp.Relay
