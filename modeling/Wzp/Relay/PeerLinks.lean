import Mathlib.Data.List.AList
import Wzp.Lib.KeyedSlots
import Wzp.Relay.Presence

/-!
# The peer-link table

Every federation link runs on a connection of its own, inbound or outbound. It
enters its connection into the link map under the peer's fingerprint when it
starts and removes the entry of that fingerprint when it ends.
-/
namespace Wzp.Relay
open Bytes Runs

/-- A link together with the connection it runs on. -/
structure LinkEntry (τ : Type) extends PeerLink where
  transport : τ

/-- Whom the connections lead to, by the normalized fingerprint of the peer. -/
structure PeerConnections (ι τ : Type) where
  peerFp : τ → ι
  peerLabel : τ → String

/-- The link map, and the connections on which `run_federation_link` is running. -/
structure LinkTable (ι τ : Type) where
  peerLinks : AList fun _ : ι => LinkEntry τ
  running : List τ

inductive LinkEvent (ι τ : Type) where
  | started (transport : τ) (now : ℕ)
  | received (peer : ι) (change : PeerLink → PeerLink)
  | ended (transport : τ)

namespace LinkTable
variable {ι τ : Type} [DecidableEq ι] [DecidableEq τ] (conn : PeerConnections ι τ)

/-- No link yet. -/
def empty : LinkTable ι τ := ⟨∅, []⟩

/-- Registration at the start of `run_federation_link`. -/
def registerLink (s : LinkTable ι τ) (transport : τ) (now : ℕ) : LinkTable ι τ :=
  { peerLinks := s.peerLinks.insert (conn.peerFp transport)
      { transport, label := conn.peerLabel transport, activeRooms := [],
        remoteParticipants := fun _ => none, lastSeen := now }
    running := transport :: s.running }

/-- Cleanup at its end. -/
def cleanupLink (s : LinkTable ι τ) (transport : τ) : LinkTable ι τ :=
  { peerLinks := s.peerLinks.erase (conn.peerFp transport)
    running := s.running.filter (· ≠ transport) }

/-- Signals, datagrams and the sweeper change a link, but not its connection. -/
def modify (s : LinkTable ι τ) (peer : ι) (change : PeerLink → PeerLink) : LinkTable ι τ :=
  { s with
    peerLinks :=
      { entries := s.peerLinks.entries.map (Sigma.map id fun fp e =>
          if fp = peer then { change e.toPeerLink with transport := e.transport } else e)
        nodupKeys := List.NodupKeys.map₂ _ _ s.peerLinks.nodupKeys } }

def step (s : LinkTable ι τ) : LinkEvent ι τ → LinkTable ι τ
  | .started t now => if t ∈ s.running then s else s.registerLink conn t now
  | .received peer change => s.modify peer change
  | .ended t => if t ∈ s.running then s.cleanupLink conn t else s

omit [DecidableEq ι] [DecidableEq τ] in
/-- The connections that locally generated media goes to. -/
def forwardToPeers (s : LinkTable ι τ) : List τ := s.peerLinks.entries.map fun e => e.2.transport

def sendSignalToPeer (s : LinkTable ι τ) (peer : ι) : Option τ :=
  (s.peerLinks.lookup peer).map LinkEntry.transport

/-- The table lists the peers with a running link, each with such a link's
connection, so that whatever is sent to them is sent over a running link. -/
structure Faithful (s : LinkTable ι τ) : Prop where
  registered : ∀ fp, fp ∈ s.peerLinks ↔ ∃ t ∈ s.running, conn.peerFp t = fp
  transport : ∀ fp e, s.peerLinks.lookup fp = some e →
    e.transport ∈ s.running ∧ conn.peerFp e.transport = fp
  reached : ∀ t ∈ s.running, ∃ t' ∈ s.running, conn.peerFp t' = conn.peerFp t ∧
    s.sendSignalToPeer (conn.peerFp t) = some t' ∧ t' ∈ s.forwardToPeers

/-- A link ends only when no other link to its peer is running. -/
def EndsAlone (s : LinkTable ι τ) : LinkEvent ι τ → Prop
  | .ended t => t ∈ s.running → ∀ t' ∈ s.running, t' ≠ t → conn.peerFp t' ≠ conn.peerFp t
  | _ => True

/-! ## The table of the manager -/

/-- The manager whose link map this is. -/
def manager (s : LinkTable ι τ) (fm : FederationManager ι) : FederationManager ι :=
  { fm with
    peerLinks := s.peerLinks.entries.map fun e => (e.1, e.2.toPeerLink)
    links_nodup := by
      rw [List.map_map]
      exact s.peerLinks.nodupKeys }

omit [DecidableEq τ] in
theorem manager_modify (s : LinkTable ι τ) (fm : FederationManager ι) (peer : ι)
    (change : PeerLink → PeerLink) :
    (s.modify peer change).manager fm = (s.manager fm).modifyLink peer change := by
  simp only [manager, modify, FederationManager.modifyLink, List.map_map]
  congr 1
  apply List.map_congr_left
  intro e _
  simp only [Function.comp, Sigma.map, id]
  by_cases hfp : e.1 = peer
  · simp only [if_pos hfp]
  · simp only [if_neg hfp]

/-- A signal does to the link map what some change of its source's link does. -/
theorem handleSignal_links (sha : Hash) (fm : FederationManager ι) (source : ι) (now : ℕ)
    (msg : SignalMessage ι) : ∃ change, (fm.handleSignal sha source now msg).manager.peerLinks =
      (fm.modifyLink source change).peerLinks := by
  have htwice : ∀ f g : PeerLink → PeerLink,
      ((fm.modifyLink source f).modifyLink source g).peerLinks =
        (fm.modifyLink source fun link => g (f link)).peerLinks := by
    intro f g
    simp only [FederationManager.modifyLink, List.map_map]
    apply List.map_congr_left
    intro e _
    simp only [Function.comp]
    by_cases hfp : e.1 = source
    · simp only [if_pos hfp]
    · simp only [if_neg hfp]
  cases msg with
  | globalRoomActive room participants =>
      simp only [FederationManager.handleSignal, FederationManager.handleActive]
      split
      · exact ⟨_, htwice _ _⟩
      · exact ⟨_, rfl⟩
  | globalRoomInactive room => exact ⟨_, htwice _ _⟩
  | federatedSignalForward inner originRelayFp =>
      simp only [FederationManager.handleSignal]
      split
      · exact ⟨_, rfl⟩
      · exact ⟨_, rfl⟩
  | federationHello fp => exact ⟨_, rfl⟩
  | roomUpdate count participants => exact ⟨_, rfl⟩
  | other => exact ⟨_, rfl⟩

/-- So whatever a peer sends, the table stays that of some run: `received` stands for all signals
of the peer. -/
theorem handleSignal_received (sha : Hash) (s : LinkTable ι τ) (fm : FederationManager ι)
    (source : ι) (now : ℕ) (msg : SignalMessage ι) :
    ∃ change, ((s.manager fm).handleSignal sha source now msg).manager.peerLinks =
      ((s.step conn (.received source change)).manager fm).peerLinks := by
  obtain ⟨change, hlinks⟩ := handleSignal_links sha (s.manager fm) source now msg
  refine ⟨change, hlinks.trans ?_⟩
  rw [step, manager_modify]

/-! ## Slots by peer -/

/-- The connection entered for each peer. -/
def slots (s : LinkTable ι τ) : KeyedSlots.State ι τ τ := ⟨s.sendSignalToPeer, s.running⟩

omit [DecidableEq ι] [DecidableEq τ] in
def slotEvent : LinkEvent ι τ → KeyedSlots.Event τ
  | .started t _ => .opened t
  | .received _ _ => .other
  | .ended t => .closed t true

variable {conn}

omit [DecidableEq τ] in
@[simp] theorem sendSignalToPeer_modify (s : LinkTable ι τ) (peer : ι)
    (change : PeerLink → PeerLink) :
    (s.modify peer change).sendSignalToPeer = s.sendSignalToPeer := by
  funext fp
  simp only [sendSignalToPeer, modify, AList.lookup]
  rw [List.dlookup_map₂, Option.map_map]
  congr 1
  funext e
  simp only [Function.comp]
  split
  · rfl
  · rfl

omit [DecidableEq τ] in
theorem sendSignalToPeer_register (s : LinkTable ι τ) (t : τ) (now : ℕ) :
    (s.registerLink conn t now).sendSignalToPeer =
      Function.update s.sendSignalToPeer (conn.peerFp t) (some t) := by
  funext fp
  have hlookup := congrFun (KeyedSlots.lookup_insert s.peerLinks (conn.peerFp t)
    { transport := t, label := conn.peerLabel t, activeRooms := [],
      remoteParticipants := fun _ => none, lastSeen := now }) fp
  rw [sendSignalToPeer, registerLink, hlookup]
  by_cases hfp : fp = conn.peerFp t
  · subst hfp
    rw [Function.update_self, Function.update_self]
    rfl
  · rw [Function.update_of_ne hfp, Function.update_of_ne hfp]
    rfl

theorem sendSignalToPeer_cleanup (s : LinkTable ι τ) (t : τ) :
    (s.cleanupLink conn t).sendSignalToPeer =
      Function.update s.sendSignalToPeer (conn.peerFp t) none := by
  funext fp
  rw [sendSignalToPeer, cleanupLink, congrFun (KeyedSlots.lookup_erase s.peerLinks (conn.peerFp t)) fp]
  by_cases hfp : fp = conn.peerFp t
  · subst hfp
    rw [Function.update_self, Function.update_self]
    rfl
  · rw [Function.update_of_ne hfp, Function.update_of_ne hfp]
    rfl

theorem slots_step (s : LinkTable ι τ) (e : LinkEvent ι τ) :
    (s.step conn e).slots = KeyedSlots.step conn.peerFp id s.slots (slotEvent e) := by
  cases e with
  | started t now =>
      by_cases ht : t ∈ s.running
      · rw [step, if_pos ht]
        exact (if_pos ht).symm
      · rw [step, if_neg ht, slots, sendSignalToPeer_register]
        exact (if_neg ht).symm
  | received peer change =>
      rw [step, slots, sendSignalToPeer_modify]
      rfl
  | ended t =>
      by_cases ht : t ∈ s.running
      · rw [step, if_pos ht, slots, sendSignalToPeer_cleanup]
        exact (if_pos ht).symm
      · rw [step, if_neg ht]
        exact (if_neg ht).symm

omit [DecidableEq τ] in
theorem mem_peerLinks (s : LinkTable ι τ) (fp : ι) :
    fp ∈ s.peerLinks ↔ (s.sendSignalToPeer fp).isSome := by
  rw [sendSignalToPeer, Option.isSome_map, AList.lookup_isSome]

omit [DecidableEq τ] in
theorem mem_forwardToPeers {s : LinkTable ι τ} {fp : ι} {t : τ}
    (h : s.sendSignalToPeer fp = some t) : t ∈ s.forwardToPeers := by
  obtain ⟨e, he, rfl⟩ := Option.map_eq_some_iff.mp h
  exact List.mem_map.mpr ⟨⟨fp, e⟩, AList.mem_lookup_iff.mp he, rfl⟩

omit [DecidableEq τ] in
theorem faithful_iff_slots (s : LinkTable ι τ) :
    Faithful conn s ↔
      KeyedSlots.Covers conn.peerFp s.slots ∧ KeyedSlots.Current conn.peerFp id s.slots := by
  constructor
  · intro h
    refine ⟨fun fp => (s.mem_peerLinks fp).symm.trans (h.registered fp), fun fp t ht => ?_⟩
    obtain ⟨e, he, rfl⟩ := Option.map_eq_some_iff.mp ht
    exact ⟨e.transport, (h.transport fp e he).1, (h.transport fp e he).2, rfl⟩
  · rintro ⟨hcov, hcur⟩
    refine ⟨fun fp => (s.mem_peerLinks fp).trans (hcov fp), fun fp e he => ?_, fun t ht => ?_⟩
    · obtain ⟨t, hrun, hkey, rfl⟩ :=
        hcur fp e.transport (Option.map_eq_some_iff.mpr ⟨e, he, rfl⟩)
      exact ⟨hrun, hkey⟩
    · obtain ⟨t', ht'⟩ := Option.isSome_iff_exists.mp ((hcov (conn.peerFp t)).mpr ⟨t, ht, rfl⟩)
      obtain ⟨_, hrun, hkey, rfl⟩ := hcur _ _ ht'
      exact ⟨_, hrun, hkey, ht', mem_forwardToPeers ht'⟩

/-- A step keeps the table faithful exactly if no link ends beside another. -/
theorem faithful_step {s : LinkTable ι τ} (h : Faithful conn s) (e : LinkEvent ι τ) :
    Faithful conn (s.step conn e) ↔ EndsAlone conn s e := by
  rw [faithful_iff_slots] at h ⊢
  rw [slots_step, KeyedSlots.current_step _ h]
  · cases e with
    | started t now => exact Iff.rfl
    | received peer change => exact Iff.rfl
    | ended t =>
        simp only [slotEvent, KeyedSlots.LastEmpties, true_iff]
        exact Iff.rfl
  · intro t b heq
    cases e with
    | started t now => cases heq
    | received peer change => cases heq
    | ended t => exact (KeyedSlots.Event.closed.inj heq).2.symm

variable (conn)

/-- The table is faithful throughout exactly the runs in which no link ends
while another link to the same peer is running. -/
theorem peer_links_faithful_iff (es : List (LinkEvent ι τ)) :
    Throughout (step conn) (Faithful conn) empty es ↔
      EachStep (step conn) (EndsAlone conn) empty es := by
  refine throughout_iff_eachStep (I := fun _ => True) (fun _ _ _ _ _ => trivial)
    (fun _ e _ h => faithful_step h e) trivial ?_
  rw [faithful_iff_slots]
  refine ⟨fun fp => ?_, fun fp t ht => nomatch ht⟩
  constructor
  · intro h
    exact absurd h Bool.false_ne_true
  · rintro ⟨t, ht, _⟩
    exact absurd ht List.not_mem_nil

/-- Two relays dial each other and the link `false` ends first: the other one
still runs, but the peer is no longer in the table. -/
theorem mutual_dial_loses_peer :
    ¬ Throughout (step ⟨fun _ => (), fun _ => "peer"⟩)
      (Faithful ⟨fun _ => (), fun _ => "peer"⟩) (empty : LinkTable Unit Bool)
      [.started false 0, .started true 0, .ended false] := by
  intro h
  exact absurd ((h.last.registered ()).mpr ⟨true, by decide, rfl⟩) (by decide)

end LinkTable
end Wzp.Relay
