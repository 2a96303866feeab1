import Wzp.Lib.KeyedSlots
import Wzp.Relay.CallParties
import Wzp.Relay.LocalPresence

/-!
# Signal connections

A signal connection registers its client in the hub and in the presence map
when it opens; when it closes it ends the client's calls and takes the client
out of both. All of this goes by fingerprint, and a client may have opened
another connection in the meantime.
-/
namespace Wzp.Relay
open Bytes Runs

/-- Whose connections they are. -/
structure SignalClients (κ : Type) where
  clientFp : κ → Fingerprint
  «alias» : κ → Option String

/-- The relay with its signal connections: those in the hub and those in the
presence map. `carriers` are the connections a call was set up through. -/
structure SignalConnections (ι κ : Type) where
  relay : SignalRelay ι κ
  presence : PresenceRegistry
  inHub : List κ
  inPresence : List κ
  carriers : CallId → List κ

/-- The steps of the connections: a connection opens and closes in several steps,
and others come between them. -/
inductive ConnectionEvent (ι κ : Type) where
  | hubRegistered (c : κ)
  | presenceRegistered (c : κ)
  | signal (c : κ) (addr : String) (msg : CallSignal)
  | forwarded (forward : Forward ι)
  | callsEnded (c : κ)
  | hubUnregistered (c : κ)
  | presenceUnregistered (c : κ)

namespace SignalConnections
variable {ι κ : Type} [DecidableEq ι] [DecidableEq κ] (clients : SignalClients κ)

/-- The connections a signal sets a call up through: its sender's and the one
the offer goes to. -/
def carriersAfter (s : SignalConnections ι κ) : ConnectionEvent ι κ → CallId → List κ
  | .signal c _ (.directCallOffer offer) =>
      if s.relay.offerAccepted offer then
        Function.update s.carriers offer.callId
          (c :: (s.relay.hub.sendTarget offer.targetFingerprint).toList)
      else s.carriers
  | .signal c _ (.directCallAnswer answer) =>
      if (s.relay.registry.get answer.callId).isSome then
        Function.update s.carriers answer.callId (c :: s.carriers answer.callId)
      else s.carriers
  | .forwarded ⟨.directCallOffer offer, origin⟩ =>
      if origin ≠ s.relay.tlsFp ∧ s.relay.hub.isOnline offer.targetFingerprint then
        Function.update s.carriers offer.callId
          (s.relay.hub.sendTarget offer.targetFingerprint).toList
      else s.carriers
  | _ => s.carriers

/-- Steps of connections that are not registered do nothing. -/
def step (s : SignalConnections ι κ) (e : ConnectionEvent ι κ) : SignalConnections ι κ :=
  match e with
  | .hubRegistered c =>
      if c ∈ s.inHub then s
      else { s with
        relay := { s.relay with
          hub := s.relay.hub.register (clients.clientFp c) c (clients.alias c) }
        inHub := c :: s.inHub }
  | .presenceRegistered c =>
      if c ∈ s.inPresence then s
      else { s with
        presence := s.presence.registerLocal ⟨clients.clientFp c, clients.alias c, none⟩
        inPresence := c :: s.inPresence }
  | .signal c addr msg =>
      if c ∈ s.inHub then
        { s with
          relay := s.relay.step (.signal ⟨clients.clientFp c, addr⟩ msg)
          carriers := s.carriersAfter e }
      else s
  | .forwarded forward =>
      { s with relay := s.relay.step (.forwarded forward), carriers := s.carriersAfter e }
  | .callsEnded c =>
      if c ∈ s.inHub then { s with relay := (s.relay.endCalls (clients.clientFp c)).relay } else s
  | .hubUnregistered c =>
      if c ∈ s.inHub then
        { s with
          relay := s.relay.unregister (clients.clientFp c)
          inHub := s.inHub.filter (· ≠ c) }
      else s
  | .presenceUnregistered c =>
      if c ∈ s.inPresence then
        { s with
          presence := s.presence.unregisterLocal (clients.clientFp c)
          inPresence := s.inPresence.filter (· ≠ c) }
      else s

/-- Who is online has an open connection, and what is sent to it goes there;
who has registered its presence is present. -/
structure Faithful (s : SignalConnections ι κ) : Prop where
  online : ∀ fp, s.relay.hub.isOnline fp = true ↔ ∃ c ∈ s.inHub, clients.clientFp c = fp
  target : ∀ fp c, s.relay.hub.sendTarget fp = some c → c ∈ s.inHub ∧ clients.clientFp c = fp
  present : ∀ fp, fp ∈ s.presence.local ↔ ∃ c ∈ s.inPresence, clients.clientFp c = fp

/-- A connection that closes ends no call that was set up through another open
connection of its client. -/
def SparesCalls (s : SignalConnections ι κ) : ConnectionEvent ι κ → Prop
  | .callsEnded c => c ∈ s.inHub → ∀ callId, (s.relay.registry.get callId).isSome →
      ((s.step clients (.callsEnded c)).relay.registry.get callId).isNone →
        ∀ d ∈ s.carriers callId, d ≠ c → d ∈ s.inHub → clients.clientFp d ≠ clients.clientFp c
  | _ => True

/-- A connection leaves the hub and the presence map only when no other of its
client is there, and ends the calls of its client only when none of them was set
up through another open connection of the client. -/
def ClosesAlone (s : SignalConnections ι κ) : ConnectionEvent ι κ → Prop
  | .callsEnded c => c ∈ s.inHub →
      ∀ e ∈ s.relay.registry.callsForFingerprint (clients.clientFp c), ∀ d ∈ s.carriers e.1,
        d ≠ c → d ∈ s.inHub → clients.clientFp d ≠ clients.clientFp c
  | .hubUnregistered c => c ∈ s.inHub →
      ∀ d ∈ s.inHub, d ≠ c → clients.clientFp d ≠ clients.clientFp c
  | .presenceUnregistered c => c ∈ s.inPresence →
      ∀ d ∈ s.inPresence, d ≠ c → clients.clientFp d ≠ clients.clientFp c
  | _ => True

/-! ## Slots of the hub and of the presence map -/

omit [DecidableEq ι] [DecidableEq κ] in
def hubSlots (s : SignalConnections ι κ) : KeyedSlots.State Fingerprint (SignalClient κ) κ :=
  ⟨fun fp => s.relay.hub.lookup fp, s.inHub⟩

omit [DecidableEq ι] [DecidableEq κ] in
def presenceSlots (s : SignalConnections ι κ) : KeyedSlots.State Fingerprint LocalPresence κ :=
  ⟨fun fp => s.presence.local.lookup fp, s.inPresence⟩

def hubEvent : ConnectionEvent ι κ → KeyedSlots.Event κ
  | .hubRegistered c => .opened c
  | .hubUnregistered c => .closed c true
  | _ => .other

def presenceEvent : ConnectionEvent ι κ → KeyedSlots.Event κ
  | .presenceRegistered c => .opened c
  | .presenceUnregistered c => .closed c true
  | _ => .other

def hubEntry (c : κ) : SignalClient κ := ⟨clients.clientFp c, clients.alias c, c⟩

def presenceEntry (c : κ) : LocalPresence := ⟨clients.clientFp c, clients.alias c, none⟩

variable {clients} {s : SignalConnections ι κ}

omit [DecidableEq κ] in
/-- Signals do not touch the hub. -/
theorem handleClientSignal_hub (relay : SignalRelay ι κ) (client : SignalPeer) (msg : CallSignal) :
    (relay.handleClientSignal client msg).relay.hub = relay.hub := by
  cases msg with
  | directCallOffer offer =>
      simp only [SignalRelay.handleClientSignal_offer, SignalRelay.handleOffer]
      split
      · rfl
      · split
        · rfl
        · rfl
  | directCallAnswer answer =>
      simp only [SignalRelay.handleClientSignal_answer, SignalRelay.handleAnswer]
      split
      · rfl
      · split
        · rfl
        · rfl
  | inCall kind callId rest =>
      simp only [SignalRelay.handleClientSignal_inCall, SignalRelay.handleInCall]
      split
      · rfl
      · rfl
  | _ => rfl

omit [DecidableEq ι] [DecidableEq κ] in
theorem dispatch_hub (relay : SignalRelay ι κ) (origin : ι) (msg : CallSignal) :
    (relay.dispatch origin msg).relay.hub = relay.hub := by
  unfold SignalRelay.dispatch
  split
  · split
    · rfl
    · rfl
  · split
    · rfl
    · split
      · rfl
      · rfl
  · split
    · rfl
    · rfl
  · split
    · rfl
    · rfl
  · rfl

omit [DecidableEq κ] in
theorem forwarded_hub (relay : SignalRelay ι κ) (forward : Forward ι) :
    (relay.step (.forwarded forward)).hub = relay.hub := by
  rw [SignalRelay.step]
  split
  · exact dispatch_hub relay _ _
  · rfl

theorem hubSlots_step (s : SignalConnections ι κ) (e : ConnectionEvent ι κ) :
    (s.step clients e).hubSlots =
      KeyedSlots.step clients.clientFp (hubEntry clients) s.hubSlots (hubEvent e) := by
  cases e with
  | hubRegistered c =>
      by_cases hc : c ∈ s.inHub
      · rw [step, if_pos hc]
        exact (if_pos hc).symm
      · rw [step, if_neg hc]
        refine Eq.trans ?_ (if_neg hc).symm
        simp only [hubSlots, SignalHub.register, KeyedSlots.lookup_insert, hubEntry]
  | hubUnregistered c =>
      by_cases hc : c ∈ s.inHub
      · rw [step, if_pos hc]
        refine Eq.trans ?_ (if_pos hc).symm
        simp only [hubSlots, SignalRelay.unregister, SignalHub.unregister, KeyedSlots.lookup_erase,
          if_true]
      · rw [step, if_neg hc]
        exact (if_neg hc).symm
  | signal c addr msg =>
      rw [step]
      split
      · simp only [hubSlots, SignalRelay.step, handleClientSignal_hub]
        rfl
      · rfl
  | forwarded forward =>
      rw [step]
      simp only [hubSlots, forwarded_hub]
      rfl
  | presenceRegistered c =>
      rw [step]
      split
      · rfl
      · rfl
  | callsEnded c =>
      rw [step]
      split
      · rfl
      · rfl
  | presenceUnregistered c =>
      rw [step]
      split
      · rfl
      · rfl

theorem presenceSlots_step (s : SignalConnections ι κ) (e : ConnectionEvent ι κ) :
    (s.step clients e).presenceSlots =
      KeyedSlots.step clients.clientFp (presenceEntry clients) s.presenceSlots (presenceEvent e) := by
  cases e with
  | presenceRegistered c =>
      by_cases hc : c ∈ s.inPresence
      · rw [step, if_pos hc]
        exact (if_pos hc).symm
      · rw [step, if_neg hc]
        refine Eq.trans ?_ (if_neg hc).symm
        simp only [presenceSlots, PresenceRegistry.registerLocal, KeyedSlots.lookup_insert,
          presenceEntry]
  | presenceUnregistered c =>
      by_cases hc : c ∈ s.inPresence
      · rw [step, if_pos hc]
        refine Eq.trans ?_ (if_pos hc).symm
        simp only [presenceSlots, PresenceRegistry.unregisterLocal, KeyedSlots.lookup_erase, if_true]
      · rw [step, if_neg hc]
        exact (if_neg hc).symm
  | forwarded forward => rfl
  | hubRegistered c =>
      rw [step]
      split
      · rfl
      · rfl
  | signal c addr msg =>
      rw [step]
      split
      · rfl
      · rfl
  | callsEnded c =>
      rw [step]
      split
      · rfl
      · rfl
  | hubUnregistered c =>
      rw [step]
      split
      · rfl
      · rfl

/-! ## Faithfulness -/

/-- In both tables exactly the clients with an open connection have a slot. -/
def Covered (clients : SignalClients κ) (s : SignalConnections ι κ) : Prop :=
  KeyedSlots.Covers clients.clientFp s.hubSlots ∧ KeyedSlots.Covers clients.clientFp s.presenceSlots

/-- The hub holds no connection but open ones; this is so in every run. -/
def HubCurrent (clients : SignalClients κ) (s : SignalConnections ι κ) : Prop :=
  KeyedSlots.Current clients.clientFp (hubEntry clients) s.hubSlots

theorem hubCurrent_step (h : HubCurrent clients s) (e : ConnectionEvent ι κ) :
    HubCurrent clients (s.step clients e) := by
  rw [HubCurrent, hubSlots_step]
  cases e with
  | hubRegistered c => exact KeyedSlots.current_opened h c
  | hubUnregistered c => exact KeyedSlots.current_closed h
  | _ => exact h

omit [DecidableEq ι] [DecidableEq κ] in
theorem faithful_iff (hcurrent : HubCurrent clients s) :
    Faithful clients s ↔ Covered clients s := by
  constructor
  · intro h
    exact ⟨h.online, fun fp => AList.lookup_isSome.trans (h.present fp)⟩
  · rintro ⟨hhub, hpresence⟩
    refine ⟨hhub, fun fp c hc => ?_, fun fp => AList.lookup_isSome.symm.trans (hpresence fp)⟩
    obtain ⟨client, hclient, rfl⟩ := Option.map_eq_some_iff.mp hc
    obtain ⟨d, hlive, hkey, rfl⟩ := hcurrent fp client hclient
    exact ⟨hlive, hkey⟩

theorem faithful_step (hcurrent : HubCurrent clients s) (h : Faithful clients s)
    (e : ConnectionEvent ι κ) :
    Faithful clients (s.step clients e) ↔
      KeyedSlots.LastEmpties clients.clientFp s.hubSlots (hubEvent e) ∧
        KeyedSlots.LastEmpties clients.clientFp s.presenceSlots (presenceEvent e) := by
  obtain ⟨hhub, hpresence⟩ := (faithful_iff hcurrent).mp h
  rw [faithful_iff (hubCurrent_step hcurrent e), Covered, hubSlots_step, presenceSlots_step,
    KeyedSlots.covers_step hhub, KeyedSlots.covers_step hpresence]

/-- A connection that closes ends exactly the calls of its client. -/
theorem ended_by_closing {c : κ} (hc : c ∈ s.inHub) (callId : CallId) :
    ((s.relay.registry.get callId).isSome ∧
        ((s.step clients (.callsEnded c)).relay.registry.get callId).isNone) ↔
      ∃ call, (callId, call) ∈ s.relay.registry.callsForFingerprint (clients.clientFp c) := by
  have hmem : callId ∈ (s.relay.registry.callsForFingerprint (clients.clientFp c)).map Prod.fst ↔
      ∃ call, (callId, call) ∈ s.relay.registry.callsForFingerprint (clients.clientFp c) := by
    rw [List.mem_map]
    constructor
    · rintro ⟨⟨id, call⟩, hcall, rfl⟩
      exact ⟨call, hcall⟩
    · rintro ⟨call, hcall⟩
      exact ⟨(callId, call), hcall, rfl⟩
  simp only [step, if_pos hc, SignalRelay.endCalls, CallRegistry.get_foldl_endCall]
  constructor
  · rintro ⟨hsome, hnone⟩
    by_contra hno
    rw [if_neg (mt hmem.mp hno), Option.isNone_iff_eq_none] at hnone
    rw [hnone] at hsome
    exact Bool.false_ne_true hsome
  · rintro ⟨call, hcall⟩
    rw [if_pos (hmem.mpr ⟨call, hcall⟩), (CallRegistry.mem_callsForFingerprint.mp hcall).1]
    exact ⟨rfl, rfl⟩

theorem sparesCalls_callsEnded (s : SignalConnections ι κ) (c : κ) :
    SparesCalls clients s (.callsEnded c) ↔ ClosesAlone clients s (.callsEnded c) := by
  refine forall_congr' fun hc => ?_
  constructor
  · rintro h ⟨callId, call⟩ hcall d hd
    obtain ⟨hsome, hnone⟩ := (ended_by_closing hc callId).mpr ⟨call, hcall⟩
    exact h callId hsome hnone d hd
  · intro h callId hsome hnone d hd
    obtain ⟨call, hcall⟩ := (ended_by_closing hc callId).mp ⟨hsome, hnone⟩
    exact h (callId, call) hcall d hd

theorem closesAlone_iff (s : SignalConnections ι κ) (e : ConnectionEvent ι κ) :
    ClosesAlone clients s e ↔
      (KeyedSlots.LastEmpties clients.clientFp s.hubSlots (hubEvent e) ∧
        KeyedSlots.LastEmpties clients.clientFp s.presenceSlots (presenceEvent e)) ∧
      SparesCalls clients s e := by
  cases e with
  | hubUnregistered c =>
      constructor
      · intro h
        exact ⟨⟨fun hc => ⟨fun _ => h hc, fun _ => rfl⟩, trivial⟩, trivial⟩
      · intro h hc
        exact (h.1.1 hc).mp rfl
  | presenceUnregistered c =>
      constructor
      · intro h
        exact ⟨⟨trivial, fun hc => ⟨fun _ => h hc, fun _ => rfl⟩⟩, trivial⟩
      · intro h hc
        exact (h.1.2 hc).mp rfl
  | callsEnded c =>
      rw [sparesCalls_callsEnded]
      exact ⟨fun h => ⟨⟨trivial, trivial⟩, h⟩, And.right⟩
  | _ => exact ⟨fun _ => ⟨⟨trivial, trivial⟩, trivial⟩, fun _ => trivial⟩

/-- No client has opened a connection yet. -/
def idle (relay : SignalRelay ι κ) : SignalConnections ι κ :=
  ⟨{ relay with hub := ∅ }, ⟨∅⟩, [], [], fun _ => []⟩

omit [DecidableEq ι] [DecidableEq κ] in
theorem hubCurrent_idle (relay : SignalRelay ι κ) : HubCurrent clients (idle relay) := by
  intro fp client hslot
  exact absurd hslot.symm (Option.some_ne_none client)

omit [DecidableEq ι] [DecidableEq κ] in
theorem faithful_idle (relay : SignalRelay ι κ) : Faithful clients (idle relay) := by
  rw [faithful_iff (hubCurrent_idle relay)]
  constructor
  · intro fp
    exact ⟨fun h => absurd h Bool.false_ne_true, fun ⟨c, hc, _⟩ => absurd hc List.not_mem_nil⟩
  · intro fp
    exact ⟨fun h => absurd h Bool.false_ne_true, fun ⟨c, hc, _⟩ => absurd hc List.not_mem_nil⟩

variable (clients)

/-- The hub and the presence map are faithful throughout a run and no call is
lost in it exactly if no connection closes over another one of its client. -/
theorem connections_faithful_iff (relay : SignalRelay ι κ) (es : List (ConnectionEvent ι κ)) :
    Throughout (step clients) (Faithful clients) (idle relay) es ∧
        EachStep (step clients) (SparesCalls clients) (idle relay) es ↔
      EachStep (step clients) (ClosesAlone clients) (idle relay) es := by
  rw [throughout_iff_eachStep (I := HubCurrent clients) (fun _ e hI _ _ => hubCurrent_step hI e)
    (fun _ e hI hP => faithful_step hI hP e) (hubCurrent_idle relay) (faithful_idle relay),
    ← eachStep_and]
  exact (eachStep_congr closesAlone_iff).symm

/-- A client reconnects, and the teardown of its old connection takes it offline. -/
theorem reconnected_client_offline :
    ¬ Throughout (step (ι := Fin 1) (κ := Bool) ⟨fun _ => "alice", fun _ => none⟩)
      (Faithful ⟨fun _ => "alice", fun _ => none⟩) (idle ⟨∅, ∅, none, 0, ""⟩)
      [.hubRegistered false, .presenceRegistered false, .hubRegistered true,
        .presenceRegistered true, .callsEnded false, .hubUnregistered false] := by
  intro h
  have honline := (h.last.online "alice").mpr ⟨true, by decide, rfl⟩
  exact absurd honline (by decide)

end SignalConnections
end Wzp.Relay
