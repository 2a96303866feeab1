import Wzp.Relay.RemotePresence

/-!
# Presence over probe connections

A relay probes others. Each tenth ping it sends its fingerprints, and the other answers
with its own. With them goes an address, under which they are filed: the prober puts that
of the connection's target there, and the responder that of the connection's source.
-/
namespace Wzp.Relay
open Runs

/-- Relays, the relay behind each address, and the probes that are configured. Addresses
are sent as text, which parses back. -/
structure ProbeNetwork (Relay Addr Probe : Type) where
  owner : Addr → Relay
  ephemeral : Relay → ℕ → Addr
  ephemeral_owner : ∀ r port, owner (ephemeral r port) = r
  prober : Probe → Relay
  target : Probe → Addr
  toText : Addr → String
  parse : String → Option Addr
  parse_toText : ∀ a, parse (toText a) = some a

structure PresenceUpdate where
  fingerprints : List String
  relayAddr : String
  deriving DecidableEq, Repr

/-- A probe connection, with the address its responder sees and what is under way. -/
structure ProbeSession (Addr : Type) where
  addr : Addr
  toResponder : List PresenceUpdate
  toProber : List PresenceUpdate

/-- The registries of all relays and the sessions, with the probes that have been answered
and the relay whose update the entry of a fingerprint comes from. -/
structure Probing (Relay Addr Probe : Type) where
  registry : Relay → GossipRegistry Addr
  session : Probe → Option (ProbeSession Addr)
  answered : Probe → Bool
  reporter : Relay → String → Option Relay

inductive ProbeEvent (Probe : Type) where
  | connect (probe : Probe) (port : ℕ)
  | sendPresence (probe : Probe)
  | respond (probe : Probe) (now : Instant)
  | recvPresence (probe : Probe) (now : Instant)

/-- An update that a relay takes in, and where it files it. -/
structure PresenceDelivery (Relay Addr : Type) where
  receiver : Relay
  sender : Relay
  addr : Addr
  fingerprints : List String

inductive Route (Addr : Type) where
  | local
  | directPeer (addr : Addr)
  | notFound
  deriving DecidableEq, Repr

def GossipRegistry.resolve {Addr : Type} (reg : GossipRegistry Addr) (fp : String) : Route Addr :=
  match reg.lookup fp with
  | some .local => .local
  | some (.remote addr) => .directPeer addr
  | none => .notFound

namespace Probing
variable {Relay Addr Probe : Type} (net : ProbeNetwork Relay Addr Probe)

section Model
variable [DecidableEq Relay] [DecidableEq Addr] [DecidableEq Probe]

def start (registry : Relay → GossipRegistry Addr) : Probing Relay Addr Probe :=
  ⟨registry, fun _ => none, fun _ => false, fun _ _ => none⟩

def localFingerprints (s : Probing Relay Addr Probe) (r : Relay) : List String :=
  (s.registry r).localFingerprints

/-- The prober names the address it has connected to. -/
def probeUpdate (s : Probing Relay Addr Probe) (p : Probe) : PresenceUpdate :=
  ⟨s.localFingerprints (net.prober p), net.toText (net.target p)⟩

/-- The responder names the address the connection comes from. -/
def probeReply (s : Probing Relay Addr Probe) (p : Probe) (addr : Addr) : PresenceUpdate :=
  ⟨s.localFingerprints (net.owner (net.target p)), net.toText addr⟩

/-- What an event delivers, if anything. -/
def delivery (s : Probing Relay Addr Probe) : ProbeEvent Probe → Option (PresenceDelivery Relay Addr)
  | .respond p _ =>
      match s.session p with
      | some ⟨addr, msg :: _, _⟩ => some ⟨net.owner (net.target p), net.prober p,
          (net.parse msg.relayAddr).getD addr, msg.fingerprints⟩
      | _ => none
  | .recvPresence p _ =>
      match s.session p with
      | some ⟨_, _, msg :: _⟩ => some ⟨net.prober p, net.owner (net.target p),
          (net.parse msg.relayAddr).getD (net.target p), msg.fingerprints⟩
      | _ => none
  | _ => none

def deliver (s : Probing Relay Addr Probe) (now : Instant) (d : PresenceDelivery Relay Addr) :
    Probing Relay Addr Probe :=
  { s with
    registry := Function.update s.registry d.receiver
      ((s.registry d.receiver).updatePeer now d.addr d.fingerprints.toFinset)
    reporter := Function.update s.reporter d.receiver fun fp =>
      if fp ∈ d.fingerprints then some d.sender else s.reporter d.receiver fp }

def setSession (s : Probing Relay Addr Probe) (p : Probe) (session : ProbeSession Addr) :
    Probing Relay Addr Probe :=
  { s with session := Function.update s.session p (some session) }

def step (s : Probing Relay Addr Probe) : ProbeEvent Probe → Probing Relay Addr Probe
  | .connect p port => s.setSession p ⟨net.ephemeral (net.prober p) port, [], []⟩
  | .sendPresence p =>
      match s.session p with
      | some c => s.setSession p { c with toResponder := c.toResponder ++ [s.probeUpdate net p] }
      | none => s
  | .respond p now =>
      match s.session p with
      | some ⟨addr, msg :: rest, toProber⟩ =>
          let s := s.deliver now ⟨net.owner (net.target p), net.prober p,
            (net.parse msg.relayAddr).getD addr, msg.fingerprints⟩
          s.setSession p ⟨addr, rest, toProber ++ [s.probeReply net p addr]⟩
      | _ => s
  | .recvPresence p now =>
      match s.session p with
      | some ⟨addr, toResponder, msg :: rest⟩ =>
          let s := s.deliver now ⟨net.prober p, net.owner (net.target p),
            (net.parse msg.relayAddr).getD (net.target p), msg.fingerprints⟩
          { s.setSession p ⟨addr, toResponder, rest⟩ with
            answered := Function.update s.answered p true }
      | _ => s

/-! ## What is promised -/

/-- One of the two relays probes the other. -/
def Probed (x y : Relay) : Prop :=
  ∃ p, (net.prober p = x ∧ net.owner (net.target p) = y) ∨
    (net.prober p = y ∧ net.owner (net.target p) = x)

/-- Of the others that `x` probes or is probed by only `y` has the fingerprint. -/
structure OnlyAt (s : Probing Relay Addr Probe) (x y : Relay) (fp : String) : Prop where
  other : y ≠ x
  probed : Probed net x y
  «local» : fp ∈ s.localFingerprints y
  away : fp ∉ s.localFingerprints x
  unique : ∀ z, z ≠ x → Probed net x z → fp ∈ s.localFingerprints z → z = y

def AllAnswered (s : Probing Relay Addr Probe) : Prop := ∀ p, s.answered p = true

/-- Once every probe has been answered, a fingerprint that only one peer has is found
there. -/
def NamesRelay (s : Probing Relay Addr Probe) : Prop :=
  AllAnswered s → ∀ x y fp, OnlyAt net s x y fp →
    ∃ a, (s.registry x).lookup fp = some (.remote a) ∧
      (s.registry x).resolve fp = .directPeer a ∧ net.owner a = y

/-- An update leaves what another peer has reported and the sender does not report. -/
def LeavesOthers (s : Probing Relay Addr Probe) (e : ProbeEvent Probe) : Prop :=
  ∀ d, s.delivery net e = some d → ∀ fp rp y, s.reporter d.receiver fp = some y → y ≠ d.sender →
    fp ∉ d.fingerprints → (s.registry d.receiver).remote fp = some rp →
      ((s.step net e).registry d.receiver).remote fp = some rp

/-- No entry of another peer, of a fingerprint that the sender does not report, is filed
under the address of the update. -/
def FiledApart (s : Probing Relay Addr Probe) (e : ProbeEvent Probe) : Prop :=
  ∀ d, s.delivery net e = some d → ∀ fp rp y, s.reporter d.receiver fp = some y → y ≠ d.sender →
    fp ∉ d.fingerprints → (s.registry d.receiver).remote fp = some rp → rp.relayAddr ≠ d.addr

end Model

/-! ## Where updates are filed -/

variable {net} {s : Probing Relay Addr Probe} {x y : Relay} {fp : String}

/-- What the relay has for the fingerprint is filed under an address of its own. -/
def FiledHere (net : ProbeNetwork Relay Addr Probe) (s : Probing Relay Addr Probe) (x : Relay)
    (fp : String) : Prop :=
  ∀ rp, (s.registry x).remote fp = some rp → net.owner rp.relayAddr = x

/-- The addresses under way are those of their receivers, and what has been exchanged is
filed under them. -/
structure Misfiled (net : ProbeNetwork Relay Addr Probe) (s : Probing Relay Addr Probe) : Prop where
  source : ∀ p c, s.session p = some c → net.owner c.addr = net.prober p
  updates : ∀ p c, s.session p = some c → ∀ msg ∈ c.toResponder, msg = s.probeUpdate net p
  replies : ∀ p c, s.session p = some c → ∀ msg ∈ c.toProber, msg = s.probeReply net p c.addr ∧
    ∀ fp ∈ s.localFingerprints (net.prober p), FiledHere net s (net.owner (net.target p)) fp
  answered : ∀ p, s.answered p = true →
    (∀ fp ∈ s.localFingerprints (net.prober p), FiledHere net s (net.owner (net.target p)) fp) ∧
      ∀ fp ∈ s.localFingerprints (net.owner (net.target p)), FiledHere net s (net.prober p) fp

/-- A session of which everything under way is in order. -/
structure SessionOk (net : ProbeNetwork Relay Addr Probe) (s : Probing Relay Addr Probe) (p : Probe)
    (c : ProbeSession Addr) : Prop where
  source : net.owner c.addr = net.prober p
  updates : ∀ msg ∈ c.toResponder, msg = s.probeUpdate net p
  replies : ∀ msg ∈ c.toProber, msg = s.probeReply net p c.addr ∧
    ∀ fp ∈ s.localFingerprints (net.prober p), FiledHere net s (net.owner (net.target p)) fp

theorem Misfiled.sessionOk (h : Misfiled net s) {p : Probe} {c : ProbeSession Addr}
    (hc : s.session p = some c) : SessionOk net s p c :=
  ⟨h.source p c hc, h.updates p c hc, h.replies p c hc⟩

theorem start_misfiled (registry : Relay → GossipRegistry Addr) :
    Misfiled net (start registry : Probing Relay Addr Probe) := by
  constructor
  · exact fun _ c hc => absurd hc.symm (Option.some_ne_none c)
  · exact fun _ c hc => absurd hc.symm (Option.some_ne_none c)
  · exact fun _ c hc => absurd hc.symm (Option.some_ne_none c)
  · exact fun _ hp => absurd hp Bool.false_ne_true

/-! ## What becomes of the promise -/

theorem Misfiled.peer_filedHere (h : Misfiled net s) (hall : AllAnswered s) (hxy : Probed net x y)
    (hfp : fp ∈ s.localFingerprints y) : FiledHere net s x fp := by
  obtain ⟨p, ⟨rfl, rfl⟩ | ⟨rfl, rfl⟩⟩ := hxy
  · exact (h.answered p (hall p)).2 fp hfp
  · exact (h.answered p (hall p)).1 fp hfp

/-- The promise is kept only where there is nothing to find. -/
theorem namesRelay_iff (h : Misfiled net s) :
    NamesRelay net s ↔ (AllAnswered s → ∀ x y fp, ¬ OnlyAt net s x y fp) := by
  constructor
  · intro hnames hall x y fp honly
    obtain ⟨a, hlookup, _, howner⟩ := hnames hall x y fp honly
    have hhere := h.peer_filedHere hall honly.probed honly.local
    unfold GossipRegistry.lookup at hlookup
    split at hlookup
    · cases hlookup
    · cases hremote : (s.registry x).remote fp with
      | none =>
          rw [hremote] at hlookup
          cases hlookup
      | some rp =>
          rw [hremote] at hlookup
          obtain rfl : rp.relayAddr = a := by
            injection hlookup with hlocation
            injection hlocation
          exact honly.other (howner.symm.trans (hhere rp hremote))
  · exact fun hnone hall x y fp honly => absurd honly (hnone hall x y fp)

section Deliver
variable [DecidableEq Relay] [DecidableEq Addr]

theorem deliver_registry_self (now : Instant) (d : PresenceDelivery Relay Addr) :
    (s.deliver now d).registry d.receiver =
      (s.registry d.receiver).updatePeer now d.addr d.fingerprints.toFinset :=
  Function.update_self _ _ _

theorem deliver_registry_other (now : Instant) (d : PresenceDelivery Relay Addr)
    (h : x ≠ d.receiver) : (s.deliver now d).registry x = s.registry x :=
  Function.update_of_ne h _ _

theorem deliver_localFingerprints (now : Instant) (d : PresenceDelivery Relay Addr) (r : Relay) :
    (s.deliver now d).localFingerprints r = s.localFingerprints r := by
  unfold localFingerprints
  by_cases hr : r = d.receiver
  · subst hr
    rw [deliver_registry_self]
    rfl
  · rw [deliver_registry_other now d hr]

theorem deliver_new (now : Instant) (d : PresenceDelivery Relay Addr) (h : fp ∈ d.fingerprints) :
    ((s.deliver now d).registry d.receiver).remote fp = some ⟨fp, d.addr, now⟩ := by
  rw [deliver_registry_self]
  exact if_pos (List.mem_toFinset.mpr h)

theorem deliver_old (now : Instant) (d : PresenceDelivery Relay Addr) (h : fp ∉ d.fingerprints) :
    ((s.deliver now d).registry d.receiver).remote fp =
      ((s.registry d.receiver).remote fp).filter fun rp => rp.relayAddr ≠ d.addr := by
  rw [deliver_registry_self]
  exact if_neg fun hmem => h (List.mem_toFinset.mp hmem)

/-- An update under an address of the receiver takes nothing away from its own. -/
theorem deliver_filedHere (now : Instant) {d : PresenceDelivery Relay Addr}
    (hd : net.owner d.addr = d.receiver) (h : FiledHere net s x fp) :
    FiledHere net (s.deliver now d) x fp := by
  intro rp hrp
  by_cases hx : x = d.receiver
  · subst hx
    by_cases hfp : fp ∈ d.fingerprints
    · rw [deliver_new now d hfp] at hrp
      obtain rfl := Option.some.inj hrp
      exact hd
    · rw [deliver_old now d hfp] at hrp
      exact h rp (Option.filter_eq_some_iff.mp hrp).1
  · rw [deliver_registry_other now d hx] at hrp
    exact h rp hrp

theorem deliver_filed (now : Instant) {d : PresenceDelivery Relay Addr}
    (hd : net.owner d.addr = d.receiver) (h : fp ∈ d.fingerprints) :
    FiledHere net (s.deliver now d) d.receiver fp := by
  intro rp hrp
  rw [deliver_new now d h] at hrp
  obtain rfl := Option.some.inj hrp
  exact hd

theorem probeUpdate_deliver (now : Instant) (d : PresenceDelivery Relay Addr) (p : Probe) :
    (s.deliver now d).probeUpdate net p = s.probeUpdate net p := by
  rw [probeUpdate, probeUpdate, deliver_localFingerprints]

theorem probeReply_deliver (now : Instant) (d : PresenceDelivery Relay Addr) (p : Probe)
    (addr : Addr) : (s.deliver now d).probeReply net p addr = s.probeReply net p addr := by
  rw [probeReply, probeReply, deliver_localFingerprints]

theorem deliver_sessionOk (now : Instant) {d : PresenceDelivery Relay Addr}
    (hd : net.owner d.addr = d.receiver) {p : Probe} {c : ProbeSession Addr}
    (h : SessionOk net s p c) : SessionOk net (s.deliver now d) p c := by
  constructor
  · exact h.source
  · rw [probeUpdate_deliver]
    exact h.updates
  · intro msg hmsg
    obtain ⟨heq, hfiled⟩ := h.replies msg hmsg
    rw [probeReply_deliver, deliver_localFingerprints]
    exact ⟨heq, fun fp hfp => deliver_filedHere now hd (hfiled fp hfp)⟩

theorem deliver_misfiled (h : Misfiled net s) (now : Instant) {d : PresenceDelivery Relay Addr}
    (hd : net.owner d.addr = d.receiver) : Misfiled net (s.deliver now d) := by
  have hsession : ∀ p c, (s.deliver now d).session p = some c →
      SessionOk net (s.deliver now d) p c := fun p c hc => deliver_sessionOk now hd (h.sessionOk hc)
  refine ⟨fun p c hc => (hsession p c hc).source, fun p c hc => (hsession p c hc).updates,
    fun p c hc => (hsession p c hc).replies, fun p hp => ?_⟩
  obtain ⟨hprober, hresponder⟩ := h.answered p hp
  rw [deliver_localFingerprints, deliver_localFingerprints]
  exact ⟨fun fp hfp => deliver_filedHere now hd (hprober fp hfp),
    fun fp hfp => deliver_filedHere now hd (hresponder fp hfp)⟩

end Deliver

section Sessions
variable [DecidableEq Probe]

theorem setSession_self (p : Probe) (c : ProbeSession Addr) :
    (s.setSession p c).session p = some c := Function.update_self _ _ _

theorem setSession_other {p q : Probe} (c : ProbeSession Addr) (h : q ≠ p) :
    (s.setSession p c).session q = s.session q := Function.update_of_ne h _ _

theorem setSession_misfiled (h : Misfiled net s) {p : Probe} {c : ProbeSession Addr}
    (hc : SessionOk net s p c) : Misfiled net (s.setSession p c) := by
  have hsession : ∀ q c', (s.setSession p c).session q = some c' → SessionOk net s q c' := by
    intro q c' hq
    by_cases hqp : q = p
    · subst hqp
      rw [setSession_self] at hq
      obtain rfl := Option.some.inj hq
      exact hc
    · rw [setSession_other c hqp] at hq
      exact h.sessionOk hq
  exact ⟨fun q c' hq => (hsession q c' hq).source, fun q c' hq => (hsession q c' hq).updates,
    fun q c' hq => (hsession q c' hq).replies, h.answered⟩

end Sessions

/-! ## Each event -/

section Steps
variable [DecidableEq Relay] [DecidableEq Addr] [DecidableEq Probe]

theorem step_localFingerprints (e : ProbeEvent Probe) (r : Relay) :
    (s.step net e).localFingerprints r = s.localFingerprints r := by
  cases e with
  | connect p port => rfl
  | sendPresence p =>
      rw [step]
      split
      · rfl
      · rfl
  | respond p now =>
      rw [step]
      split
      · exact deliver_localFingerprints now _ r
      · rfl
  | recvPresence p now =>
      rw [step]
      split
      · exact deliver_localFingerprints now _ r
      · rfl

/-- The responder files the update under the address that it names, which is its own. -/
theorem respond_misfiled (h : Misfiled net s) {p : Probe} (now : Instant) {addr : Addr}
    {msg : PresenceUpdate} {rest toProber : List PresenceUpdate}
    (hc : s.session p = some ⟨addr, msg :: rest, toProber⟩) :
    Misfiled net (s.step net (.respond p now)) := by
  have hok := h.sessionOk hc
  obtain rfl : msg = s.probeUpdate net p := hok.updates msg List.mem_cons_self
  have haddr : (net.parse (s.probeUpdate net p).relayAddr).getD addr = net.target p := by
    rw [probeUpdate, net.parse_toText, Option.getD_some]
  simp only [step, hc, haddr]
  have hd : net.owner (net.target p) = net.owner (net.target p) := rfl
  generalize heq : PresenceDelivery.mk (net.owner (net.target p)) (net.prober p) (net.target p)
    (s.probeUpdate net p).fingerprints = d
  obtain ⟨hreceiver, hadd, hfps⟩ : d.receiver = net.owner (net.target p) ∧ d.addr = net.target p ∧
      d.fingerprints = s.localFingerprints (net.prober p) := by
    subst heq
    exact ⟨rfl, rfl, rfl⟩
  have hown : net.owner d.addr = d.receiver := by rw [hadd, hreceiver]
  have hold := deliver_sessionOk now hown hok
  refine setSession_misfiled (deliver_misfiled h now hown) ⟨hold.source, ?_, ?_⟩
  · exact fun m hm => hold.updates m (List.mem_cons_of_mem _ hm)
  · intro m hm
    rcases List.mem_append.mp hm with hm | hm
    · exact hold.replies m hm
    · refine ⟨List.mem_singleton.mp hm, fun fp hfp => ?_⟩
      rw [deliver_localFingerprints, ← hfps] at hfp
      rw [← hreceiver]
      exact deliver_filed now hown hfp

/-- The prober files the reply under the address that it names, which is its own. -/
theorem recvPresence_misfiled (h : Misfiled net s) {p : Probe} (now : Instant) {addr : Addr}
    {msg : PresenceUpdate} {toResponder rest : List PresenceUpdate}
    (hc : s.session p = some ⟨addr, toResponder, msg :: rest⟩) :
    Misfiled net (s.step net (.recvPresence p now)) := by
  have hok := h.sessionOk hc
  obtain ⟨hmsg, hfiled⟩ := hok.replies msg List.mem_cons_self
  obtain rfl : msg = s.probeReply net p addr := hmsg
  have haddr : (net.parse (s.probeReply net p addr).relayAddr).getD (net.target p) = addr := by
    rw [probeReply, net.parse_toText, Option.getD_some]
  simp only [step, hc, haddr]
  generalize heq : PresenceDelivery.mk (net.prober p) (net.owner (net.target p)) addr
    (s.probeReply net p addr).fingerprints = d
  obtain ⟨hreceiver, hadd, hfps⟩ : d.receiver = net.prober p ∧ d.addr = addr ∧
      d.fingerprints = s.localFingerprints (net.owner (net.target p)) := by
    subst heq
    exact ⟨rfl, rfl, rfl⟩
  have hown : net.owner d.addr = d.receiver := by
    rw [hadd, hreceiver]
    exact hok.source
  have hold := deliver_sessionOk now hown hok
  have hnext := deliver_misfiled h now hown
  have hsession : SessionOk net (s.deliver now d) p ⟨addr, toResponder, rest⟩ :=
    ⟨hold.source, hold.updates, fun m hm => hold.replies m (List.mem_cons_of_mem _ hm)⟩
  obtain ⟨hsource, hupdates, hreplies, hanswered⟩ := setSession_misfiled hnext hsession
  refine ⟨hsource, hupdates, hreplies, fun q hq => ?_⟩
  by_cases hqp : q = p
  · subst hqp
    constructor
    · intro fp hfp
      have hlocal : fp ∈ s.localFingerprints (net.prober q) := by
        rw [← deliver_localFingerprints now d]
        exact hfp
      exact deliver_filedHere now hown (hfiled fp hlocal)
    · intro fp hfp
      have hlocal : fp ∈ d.fingerprints := by
        rw [hfps, ← deliver_localFingerprints now d]
        exact hfp
      rw [← hreceiver]
      exact deliver_filed now hown hlocal
  · have hold : Function.update s.answered p true q = true := hq
    rw [Function.update_of_ne hqp] at hold
    exact hanswered q hold

theorem step_misfiled (h : Misfiled net s) (e : ProbeEvent Probe) : Misfiled net (s.step net e) := by
  cases e with
  | connect p port =>
      refine setSession_misfiled h ⟨net.ephemeral_owner _ _, ?_, ?_⟩
      · exact fun _ hm => absurd hm List.not_mem_nil
      · exact fun _ hm => absurd hm List.not_mem_nil
  | sendPresence p =>
      rw [step]
      cases hc : s.session p with
      | none => exact h
      | some c =>
          have hok := h.sessionOk hc
          refine setSession_misfiled h ⟨hok.source, fun m hm => ?_, hok.replies⟩
          rcases List.mem_append.mp hm with hm | hm
          · exact hok.updates m hm
          · exact List.mem_singleton.mp hm
  | respond p now =>
      cases hc : s.session p with
      | none => simpa only [step, hc] using h
      | some c =>
          obtain ⟨addr, toResponder, toProber⟩ := c
          cases toResponder with
          | nil => simpa only [step, hc] using h
          | cons msg rest => exact respond_misfiled h now hc
  | recvPresence p now =>
      cases hc : s.session p with
      | none => simpa only [step, hc] using h
      | some c =>
          obtain ⟨addr, toResponder, toProber⟩ := c
          cases toProber with
          | nil => simpa only [step, hc] using h
          | cons msg rest => exact recvPresence_misfiled h now hc

theorem step_onlyAt (e : ProbeEvent Probe) :
    OnlyAt net (s.step net e) x y fp ↔ OnlyAt net s x y fp := by
  constructor
  · rintro ⟨hother, hprobed, hlocal, haway, hunique⟩
    simp only [step_localFingerprints] at hlocal haway hunique
    exact ⟨hother, hprobed, hlocal, haway, hunique⟩
  · rintro ⟨hother, hprobed, hlocal, haway, hunique⟩
    constructor
    · exact hother
    · exact hprobed
    all_goals simp only [step_localFingerprints]
    · exact hlocal
    · exact haway
    · exact hunique

theorem step_answered (e : ProbeEvent Probe) {p : Probe} (h : s.answered p = true) :
    (s.step net e).answered p = true := by
  cases e with
  | connect q port => exact h
  | sendPresence q =>
      rw [step]
      split
      · exact h
      · exact h
  | respond q now =>
      rw [step]
      split
      · exact h
      · exact h
  | recvPresence q now =>
      rw [step]
      split
      · by_cases hpq : p = q
        · subst hpq
          exact Function.update_self _ _ _
        · exact (Function.update_of_ne hpq _ _).trans h
      · exact h

theorem run_answered (events : List (ProbeEvent Probe)) (h : AllAnswered s) :
    AllAnswered (run (step net) s events) := by
  induction events generalizing s with
  | nil => exact h
  | cons e events ih => exact ih fun p => step_answered e (h p)

theorem throughout_namesRelay_iff (h : Misfiled net s) (events : List (ProbeEvent Probe)) :
    Throughout (step net) (NamesRelay net) s events ↔
      (AllAnswered (run (step net) s events) → ∀ x y fp, ¬ OnlyAt net s x y fp) := by
  induction events generalizing s with
  | nil => exact namesRelay_iff h
  | cons e events ih =>
      have hrest := ih (step_misfiled h e)
      simp only [step_onlyAt] at hrest
      constructor
      · exact fun hall => hrest.mp hall.2
      · intro hnone
        refine ⟨(namesRelay_iff h).mpr fun hall => hnone ?_, hrest.mpr hnone⟩
        exact run_answered (e :: events) hall

theorem step_delivered {e : ProbeEvent Probe} {d : PresenceDelivery Relay Addr}
    (hd : s.delivery net e = some d) :
    ∃ now, (s.step net e).registry = (s.deliver now d).registry := by
  cases e with
  | connect p port => cases hd
  | sendPresence p => cases hd
  | respond p now =>
      refine ⟨now, ?_⟩
      rw [delivery] at hd
      rw [step]
      split at hd
      · obtain rfl := Option.some.inj hd
        rfl
      · cases hd
  | recvPresence p now =>
      refine ⟨now, ?_⟩
      rw [delivery] at hd
      rw [step]
      split at hd
      · obtain rfl := Option.some.inj hd
        rfl
      · cases hd

theorem leavesOthers_iff (e : ProbeEvent Probe) : LeavesOthers net s e ↔ FiledApart net s e := by
  have hentry : ∀ d, s.delivery net e = some d → ∀ fp rp, fp ∉ d.fingerprints →
      (s.registry d.receiver).remote fp = some rp →
        (((s.step net e).registry d.receiver).remote fp = some rp ↔ rp.relayAddr ≠ d.addr) := by
    intro d hd fp rp hfp hrp
    obtain ⟨now, hregistry⟩ := step_delivered hd
    rw [hregistry, deliver_old now d hfp, hrp, Option.filter_eq_some_iff]
    simp only [true_and, decide_eq_true_eq]
  constructor
  · intro hleaves d hd fp rp y hy hne hfp hrp
    exact (hentry d hd fp rp hfp hrp).mp (hleaves d hd fp rp y hy hne hfp hrp)
  · intro hapart d hd fp rp y hy hne hfp hrp
    exact (hentry d hd fp rp hfp hrp).mpr (hapart d hd fp rp y hy hne hfp hrp)

/-- Fingerprints are found at their relays and no update displaces those of another peer in
exactly the runs in which not all probes are answered or nothing is at a single peer, and no
update is filed under the address that entries of another peer have. -/
theorem gossip_names_iff (net : ProbeNetwork Relay Addr Probe)
    (registry : Relay → GossipRegistry Addr) (events : List (ProbeEvent Probe)) :
    (Throughout (step net) (NamesRelay net) (start registry) events ∧
      EachStep (step net) (LeavesOthers net) (start registry) events) ↔
    ((AllAnswered (run (step net) (start registry) events) →
        ∀ x y fp, ¬ OnlyAt net (start registry) x y fp) ∧
      EachStep (step net) (FiledApart net) (start registry) events) :=
  and_congr (throughout_namesRelay_iff (start_misfiled registry) events)
    (eachStep_congr fun _ => leavesOthers_iff)

end Steps

/-! ## Two relays -/

/-- One relay, at the odd addresses, probes the other, at the even ones. -/
def pairNetwork : ProbeNetwork Bool ℕ Unit where
  owner a := a % 2 = 1
  ephemeral r port := 2 * port + r.toNat
  ephemeral_owner r port := by
    cases r with
    | false => exact decide_eq_false (by simp only [Bool.toNat_false]; omega)
    | true => exact decide_eq_true (by simp only [Bool.toNat_true]; omega)
  prober _ := true
  target _ := 0
  toText a := String.ofList (List.replicate a '1')
  parse text := some text.length
  parse_toText a := by rw [String.length_ofList, List.length_replicate]

def aliceAt (r : Bool) : GossipRegistry ℕ :=
  if r then { GossipRegistry.new with
    toPresenceRegistry := PresenceRegistry.registerLocal ⟨∅⟩ ⟨"alice", none, none⟩ }
  else .new

/-- The responder looks for the prober's client at its own address. -/
theorem prober_not_named : ¬ Throughout (step pairNetwork) (NamesRelay pairNetwork) (start aliceAt)
    [.connect () 5, .sendPresence (), .respond () 0, .recvPresence () 1] := by
  intro h
  have hall := (throughout_namesRelay_iff (start_misfiled aliceAt) _).mp h fun _ => rfl
  refine hall false true "alice" ⟨?_, ?_, ?_, ?_, ?_⟩
  · decide
  · exact ⟨(), Or.inr ⟨rfl, rfl⟩⟩
  · decide
  · decide
  · intro z hz _ _
    cases z with
    | false => exact absurd rfl hz
    | true => rfl

end Probing
end Wzp.Relay
