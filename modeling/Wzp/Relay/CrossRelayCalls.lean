import Wzp.Lib.Runs
import Wzp.Relay.SignalLoop

/-!
# Calls across two relays

Caller and callee are registered on two relays that are linked. What the two
are sent is compared with what one relay sends that both are registered on.
-/
namespace Wzp.Relay
open Bytes Runs

/-- The two parties with their signal connections. -/
structure CallParties where
  caller : SignalPeer
  callee : SignalPeer

/-- What a party sends once the call is offered. -/
inductive PartyMessage where
  | answer (answer : DirectCallAnswer)
  | inCall (kind : InCallKind) (callId : CallId) (rest : Buf)
  | hangup (reason : HangupReason) (callId : Option CallId)
  deriving DecidableEq

def PartyMessage.signal : PartyMessage → CallSignal
  | .answer a => .directCallAnswer a
  | .inCall kind callId rest => .inCall kind callId rest
  | .hangup reason callId => .hangup reason callId

/-- The message a party is sent, if it is; a reply goes to the sender. -/
def Sent.toParty {ι : Type} (sender : Option Fingerprint) (fp : Fingerprint) :
    Sent ι → Option CallSignal
  | .toClient target msg => if target = fp then some msg else none
  | .reply msg => if sender = some fp then some msg else none
  | .toPeer _ _ => none

/-- The envelope a relay is sent, if it is. -/
def Sent.toRelay {ι : Type} [DecidableEq ι] (fp : ι) : Sent ι → Option (Forward ι)
  | .toPeer peer forward => if peer = fp then some forward else none
  | _ => none

/-- What the parties have been sent so far. -/
structure Inboxes where
  caller : List CallSignal
  callee : List CallSignal
  deriving DecidableEq

def Inboxes.post {ι : Type} (parties : CallParties) (inboxes : Inboxes) (sender : Option Fingerprint)
    (sent : List (Sent ι)) : Inboxes :=
  ⟨inboxes.caller ++ sent.filterMap (Sent.toParty sender parties.caller.clientFp),
    inboxes.callee ++ sent.filterMap (Sent.toParty sender parties.callee.clientFp)⟩

/-- The relays of the parties with the envelopes under way to each, beside a
single relay that gets the same messages of the parties. -/
structure CrossCall (ι κ : Type) where
  callerRelay : SignalRelay ι κ
  calleeRelay : SignalRelay ι κ
  toCaller : List (Forward ι)
  toCallee : List (Forward ι)
  inboxes : Inboxes
  single : SignalRelay ι κ
  singleInboxes : Inboxes

/-- A party sends something, or the next envelope reaches one of the relays. -/
inductive CrossCallEvent where
  | offer (offer : DirectCallOffer)
  | fromCaller (msg : PartyMessage)
  | fromCallee (msg : PartyMessage)
  | toCaller
  | toCallee
  deriving DecidableEq

namespace CrossCall
variable {ι κ : Type} [DecidableEq ι] (parties : CallParties)

/-- Offers are those of the caller to the callee. -/
def offerOf (offer : DirectCallOffer) : DirectCallOffer :=
  { offer with
    callerFingerprint := parties.caller.clientFp
    targetFingerprint := parties.callee.clientFp }

def signalFromCaller (s : CrossCall ι κ) (msg : CallSignal) : CrossCall ι κ :=
  let after := s.callerRelay.handleClientSignal parties.caller msg
  let single := s.single.handleClientSignal parties.caller msg
  { s with
    callerRelay := after.relay
    toCallee := s.toCallee ++ after.sent.filterMap (Sent.toRelay s.calleeRelay.tlsFp)
    inboxes := s.inboxes.post parties (some parties.caller.clientFp) after.sent
    single := single.relay
    singleInboxes := s.singleInboxes.post parties (some parties.caller.clientFp) single.sent }

def signalFromCallee (s : CrossCall ι κ) (msg : CallSignal) : CrossCall ι κ :=
  let after := s.calleeRelay.handleClientSignal parties.callee msg
  let single := s.single.handleClientSignal parties.callee msg
  { s with
    calleeRelay := after.relay
    toCaller := s.toCaller ++ after.sent.filterMap (Sent.toRelay s.callerRelay.tlsFp)
    inboxes := s.inboxes.post parties (some parties.callee.clientFp) after.sent
    single := single.relay
    singleInboxes := s.singleInboxes.post parties (some parties.callee.clientFp) single.sent }

def step (s : CrossCall ι κ) : CrossCallEvent → CrossCall ι κ
  | .offer offer => s.signalFromCaller parties (.directCallOffer (offerOf parties offer))
  | .fromCaller msg => s.signalFromCaller parties msg.signal
  | .fromCallee msg => s.signalFromCallee parties msg.signal
  | .toCaller =>
      match s.toCaller with
      | [] => s
      | forward :: rest =>
          match s.callerRelay.acceptForward forward with
          | none => { s with toCaller := rest }
          | some (inner, origin) =>
              let after := s.callerRelay.dispatch origin inner
              { s with
                callerRelay := after.relay
                toCaller := rest
                toCallee := s.toCallee ++ after.sent.filterMap (Sent.toRelay s.calleeRelay.tlsFp)
                inboxes := s.inboxes.post parties none after.sent }
  | .toCallee =>
      match s.toCallee with
      | [] => s
      | forward :: rest =>
          match s.calleeRelay.acceptForward forward with
          | none => { s with toCallee := rest }
          | some (inner, origin) =>
              let after := s.calleeRelay.dispatch origin inner
              { s with
                calleeRelay := after.relay
                toCallee := rest
                toCaller := s.toCaller ++ after.sent.filterMap (Sent.toRelay s.callerRelay.tlsFp)
                inboxes := s.inboxes.post parties none after.sent }

end CrossCall

/-- Messages count as the same if they differ in the relay's address only. -/
def CallSignal.upToRelayAddr : CallSignal → CallSignal
  | .callSetup setup => .callSetup { setup with relayAddr := "" }
  | msg => msg

namespace CrossCall
variable {ι κ : Type} [DecidableEq ι] (parties : CallParties)

/-- All envelopes have arrived. -/
def Settled (s : CrossCall ι κ) : Prop := s.toCaller = [] ∧ s.toCallee = []

/-- Each party has been sent the same as by the single relay, and a call that is
absent there is absent from both registries. -/
structure Matches (s : CrossCall ι κ) : Prop where
  caller : s.inboxes.caller.map CallSignal.upToRelayAddr =
    s.singleInboxes.caller.map CallSignal.upToRelayAddr
  callee : s.inboxes.callee.map CallSignal.upToRelayAddr =
    s.singleInboxes.callee.map CallSignal.upToRelayAddr
  absent : ∀ callId, s.single.registry.get callId = none →
    s.callerRelay.registry.get callId = none ∧ s.calleeRelay.registry.get callId = none

end CrossCall

/-- No call the message is about is registered. -/
def PartyMessage.Unknown {ι : Type} (msg : PartyMessage) (reg : CallRegistry ι) : Prop :=
  match msg with
  | .answer a => reg.get a.callId = none
  | .inCall _ callId _ => reg.get callId = none
  | .hangup _ (some callId) => reg.get callId = none
  | .hangup _ none => ∀ callId, reg.get callId = none

namespace CrossCall
variable {ι κ : Type} [DecidableEq ι] (parties : CallParties)

/-- The messages that take the same effect on both sides: offers that overtake
nothing; of the caller, media path reports once the relay knows where the
callee is; of the callee, media path reports and accepting answers that overtake
nothing, once its relay has the call; and what is about no registered call. -/
def Benign (s : CrossCall ι κ) : CrossCallEvent → Prop
  | .offer _ => s.toCaller = []
  | .fromCaller msg => msg.Unknown s.callerRelay.registry ∨
      ∃ callId rest, msg = .inCall .mediaPathReport callId rest ∧
        ∃ c ∈ s.callerRelay.registry.get callId, c.peerRelayFp = some s.calleeRelay.tlsFp
  | .fromCallee msg => msg.Unknown s.callerRelay.registry ∨
      (∃ callId rest, msg = .inCall .mediaPathReport callId rest ∧
        (s.calleeRelay.registry.get callId).isSome) ∨
      ∃ answer, msg = .answer answer ∧ answer.acceptMode ≠ .reject ∧
        (s.calleeRelay.registry.get answer.callId).isSome ∧ s.toCallee = []
  | .toCaller => True
  | .toCallee => True

/-! ## The agreement of the registries -/

/-- The caller's addresses, which the callee's setup is made of. -/
abbrev CallerAddrs := Option String × List String × Option String

def offerAddrs (offer : DirectCallOffer) : CallerAddrs :=
  (offer.callerReflexiveAddr, offer.callerLocalAddrs, offer.callerMappedAddr)

omit [DecidableEq ι] in
def callAddrs (c : DirectCall ι) : CallerAddrs :=
  (c.callerReflexiveAddr, c.callerLocalAddrs, c.callerMappedAddr)

omit [DecidableEq ι] in
/-- The addresses the callee's relay knows once the offers under way have arrived. -/
def lastOffered (callId : CallId) (known : Option CallerAddrs) (queue : List (Forward ι)) :
    Option CallerAddrs :=
  queue.foldl (fun known forward =>
    match forward.inner with
    | .directCallOffer offer => if offer.callId = callId then some (offerAddrs offer) else known
    | _ => known) known

/-- How a call is registered on the caller's relay, the callee's and the single
one; `known` are the addresses known to the callee's relay in the end. -/
structure CallAgrees (callerFp calleeFp : ι) (atCaller atCallee atSingle : Option (DirectCall ι))
    (known : Option CallerAddrs) : Prop where
  absent : atSingle = none ↔ atCaller = none
  single : ∀ c ∈ atSingle, c.Between parties.caller.clientFp parties.callee.clientFp ∧
    c.peerRelayFp = none
  caller : ∀ c ∈ atCaller, c.Between parties.caller.clientFp parties.callee.clientFp ∧
    (c.peerRelayFp = none ∨ c.peerRelayFp = some calleeFp ∧ atCallee.isSome)
  callee : ∀ c ∈ atCallee, c.Between parties.caller.clientFp parties.callee.clientFp ∧
    c.peerRelayFp = some callerFp ∧ atCaller.isSome
  known : ∀ c ∈ atSingle, known = some (callAddrs c)

/-- What is under way to the caller's relay: accepting answers and reports. -/
def UnderWayToCaller (s : CrossCall ι κ) (forward : Forward ι) : Prop :=
  forward.originRelayFp = s.calleeRelay.tlsFp ∧
    ((∃ answer, forward.inner = .directCallAnswer answer ∧ answer.acceptMode ≠ .reject ∧
      (s.callerRelay.registry.get answer.callId).isSome ∧
      (s.calleeRelay.registry.get answer.callId).isSome) ∨
    ∃ callId rest, forward.inner = .inCall .mediaPathReport callId rest ∧
      (s.callerRelay.registry.get callId).isSome)

/-- What is under way to the callee's relay: offers and reports. -/
def UnderWayToCallee (s : CrossCall ι κ) (forward : Forward ι) : Prop :=
  forward.originRelayFp = s.callerRelay.tlsFp ∧
    ((∃ offer, forward.inner = .directCallOffer (offerOf parties offer) ∧
      (s.callerRelay.registry.get offer.callId).isSome) ∨
    ∃ callId rest, forward.inner = .inCall .mediaPathReport callId rest ∧
      (s.calleeRelay.registry.get callId).isSome)

/-- What the caller is going to be sent for an envelope, up to the address. -/
def callerGets (forward : Forward ι) : List CallSignal :=
  match forward.inner with
  | .directCallAnswer answer => [.directCallAnswer answer,
      .callSetup ⟨answer.callId, callPrefix ++ answer.callId, "", answer.calleeReflexiveAddr,
        answer.calleeLocalAddrs, answer.calleeMappedAddr⟩]
  | msg => [msg]

/-- Who is registered where, and the link between the two relays. -/
structure Placed (s : CrossCall ι κ) : Prop where
  callerOnline : s.callerRelay.hub.isOnline parties.caller.clientFp = true
  calleeElsewhere : s.callerRelay.hub.isOnline parties.callee.clientFp = false
  calleeOnline : s.calleeRelay.hub.isOnline parties.callee.clientFp = true
  callerElsewhere : s.calleeRelay.hub.isOnline parties.caller.clientFp = false
  singleCaller : s.single.hub.isOnline parties.caller.clientFp = true
  singleCallee : s.single.hub.isOnline parties.callee.clientFp = true
  linked : s.callerRelay.peers = some [s.calleeRelay.tlsFp]
  linkedBack : s.calleeRelay.peers = some [s.callerRelay.tlsFp]
  apart : s.callerRelay.tlsFp ≠ s.calleeRelay.tlsFp

/-- The two sides agree, up to what is under way. -/
structure Agrees (s : CrossCall ι κ) : Prop where
  placed : Placed parties s
  calls : ∀ callId, CallAgrees parties s.callerRelay.tlsFp s.calleeRelay.tlsFp
    (s.callerRelay.registry.get callId) (s.calleeRelay.registry.get callId)
    (s.single.registry.get callId)
    (lastOffered callId ((s.calleeRelay.registry.get callId).map callAddrs) s.toCallee)
  toCaller : ∀ forward ∈ s.toCaller, UnderWayToCaller s forward
  toCallee : ∀ forward ∈ s.toCallee, UnderWayToCallee parties s forward
  callerInbox : s.singleInboxes.caller.map CallSignal.upToRelayAddr =
    s.inboxes.caller.map CallSignal.upToRelayAddr ++ s.toCaller.flatMap callerGets
  calleeInbox : s.singleInboxes.callee.map CallSignal.upToRelayAddr =
    s.inboxes.callee.map CallSignal.upToRelayAddr ++ s.toCallee.map Forward.inner

variable {parties} {s s' : CrossCall ι κ}

omit [DecidableEq ι] in
/-- Calls and signals do not move anybody. -/
theorem Placed.of_same (h : Placed parties s)
    (hcaller : s'.callerRelay.hub = s.callerRelay.hub ∧ s'.callerRelay.peers = s.callerRelay.peers ∧
      s'.callerRelay.tlsFp = s.callerRelay.tlsFp)
    (hcallee : s'.calleeRelay.hub = s.calleeRelay.hub ∧ s'.calleeRelay.peers = s.calleeRelay.peers ∧
      s'.calleeRelay.tlsFp = s.calleeRelay.tlsFp)
    (hsingle : s'.single.hub = s.single.hub) : Placed parties s' where
  callerOnline := hcaller.1 ▸ h.callerOnline
  calleeElsewhere := hcaller.1 ▸ h.calleeElsewhere
  calleeOnline := hcallee.1 ▸ h.calleeOnline
  callerElsewhere := hcallee.1 ▸ h.callerElsewhere
  singleCaller := hsingle ▸ h.singleCaller
  singleCallee := hsingle ▸ h.singleCallee
  linked := by rw [hcaller.2.1, hcallee.2.2, h.linked]
  linkedBack := by rw [hcallee.2.1, hcaller.2.2, h.linkedBack]
  apart := by
    rw [hcaller.2.2, hcallee.2.2]
    exact h.apart

omit [DecidableEq ι] in
/-- What is under way stays in order as long as no call is removed. -/
theorem UnderWayToCaller.mono {forward : Forward ι} (h : UnderWayToCaller s forward)
    (hfp : s'.calleeRelay.tlsFp = s.calleeRelay.tlsFp)
    (hcaller : ∀ callId, (s.callerRelay.registry.get callId).isSome →
      (s'.callerRelay.registry.get callId).isSome)
    (hcallee : ∀ callId, (s.calleeRelay.registry.get callId).isSome →
      (s'.calleeRelay.registry.get callId).isSome) : UnderWayToCaller s' forward := by
  obtain ⟨horigin, ⟨answer, hinner, hmode, hatCaller, hatCallee⟩ | ⟨callId, rest, hinner, hsome⟩⟩ := h
  · exact ⟨horigin.trans hfp.symm,
      Or.inl ⟨answer, hinner, hmode, hcaller _ hatCaller, hcallee _ hatCallee⟩⟩
  · exact ⟨horigin.trans hfp.symm, Or.inr ⟨callId, rest, hinner, hcaller _ hsome⟩⟩

omit [DecidableEq ι] in
theorem UnderWayToCallee.mono {forward : Forward ι} (h : UnderWayToCallee parties s forward)
    (hfp : s'.callerRelay.tlsFp = s.callerRelay.tlsFp)
    (hcaller : ∀ callId, (s.callerRelay.registry.get callId).isSome →
      (s'.callerRelay.registry.get callId).isSome)
    (hcallee : ∀ callId, (s.calleeRelay.registry.get callId).isSome →
      (s'.calleeRelay.registry.get callId).isSome) : UnderWayToCallee parties s' forward := by
  obtain ⟨horigin, ⟨offer, hinner, hsome⟩ | ⟨callId, rest, hinner, hsome⟩⟩ := h
  · exact ⟨horigin.trans hfp.symm, Or.inl ⟨offer, hinner, hcaller _ hsome⟩⟩
  · exact ⟨horigin.trans hfp.symm, Or.inr ⟨callId, rest, hinner, hcallee _ hsome⟩⟩

omit [DecidableEq ι] in
/-- Once everything has arrived, the agreement is complete. -/
theorem Agrees.matches (h : Agrees parties s) (hsettled : s.Settled) : s.Matches := by
  obtain ⟨hcaller, hcallee⟩ := hsettled
  refine ⟨?_, ?_, fun callId hnone => ?_⟩
  · rw [h.callerInbox, hcaller, List.flatMap_nil, List.append_nil]
  · rw [h.calleeInbox, hcallee, List.map_nil, List.append_nil]
  · have hA := (h.calls callId).absent.mp hnone
    refine ⟨hA, ?_⟩
    by_contra hne
    obtain ⟨c, hc⟩ := Option.ne_none_iff_exists'.mp hne
    have hsome := ((h.calls callId).callee c hc).2.2
    rw [hA] at hsome
    exact Bool.false_ne_true hsome

/-! ## What the relays send -/

section relay
variable {relay : SignalRelay ι κ} {client : SignalPeer}

/-- A message about no registered call comes to nothing. -/
theorem handle_unknown {msg : PartyMessage} (h : msg.Unknown relay.registry) :
    relay.handleClientSignal client msg.signal = ⟨relay, []⟩ := by
  cases msg with
  | answer answer =>
      have hget : relay.registry.get answer.callId = none := h
      simp only [PartyMessage.signal, SignalRelay.handleClientSignal_answer,
        SignalRelay.handleAnswer, hget]
  | inCall kind callId rest =>
      have hget : relay.registry.get callId = none := h
      simp only [PartyMessage.signal, SignalRelay.handleClientSignal_inCall,
        SignalRelay.handleInCall, hget]
  | hangup reason callId =>
      have hcalls : relay.hangupCalls client callId = [] := by
        cases callId with
        | some callId =>
            have hget : relay.registry.get callId = none := h
            simp only [SignalRelay.hangupCalls, hget]
            rfl
        | none =>
            refine List.eq_nil_iff_forall_not_mem.mpr fun ⟨callId, c⟩ hmem => ?_
            have hget := (CallRegistry.mem_callsForFingerprint.mp hmem).1
            rw [show relay.registry.get callId = none from h callId] at hget
            exact absurd hget.symm (Option.some_ne_none c)
      simp only [PartyMessage.signal, SignalRelay.handleClientSignal_hangup,
        SignalRelay.handleHangup, hcalls]
      rfl

end relay

/-! ## Steps -/

omit [DecidableEq ι] in
theorem Placed.parties_ne (h : Placed parties s) :
    parties.caller.clientFp ≠ parties.callee.clientFp := by
  intro heq
  have hoff := h.calleeElsewhere
  rw [← heq, h.callerOnline] at hoff
  exact Bool.false_ne_true hoff.symm

omit [DecidableEq ι] in
theorem Agrees.unknown_single (h : Agrees parties s) {msg : PartyMessage}
    (hmsg : msg.Unknown s.callerRelay.registry) : msg.Unknown s.single.registry := by
  cases msg with
  | answer a => exact (h.calls _).absent.mpr hmsg
  | inCall kind callId rest => exact (h.calls _).absent.mpr hmsg
  | hangup reason callId =>
      cases callId with
      | some callId => exact (h.calls _).absent.mpr hmsg
      | none => exact fun callId => (h.calls callId).absent.mpr (hmsg callId)

omit [DecidableEq ι] in
theorem Agrees.callee_none (h : Agrees parties s) {callId : CallId}
    (hnone : s.callerRelay.registry.get callId = none) :
    s.calleeRelay.registry.get callId = none := by
  by_contra hne
  obtain ⟨c, hc⟩ := Option.ne_none_iff_exists'.mp hne
  have hsome := ((h.calls callId).callee c hc).2.2
  rw [hnone] at hsome
  exact Bool.false_ne_true hsome

omit [DecidableEq ι] in
theorem Agrees.unknown_callee (h : Agrees parties s) {msg : PartyMessage}
    (hmsg : msg.Unknown s.callerRelay.registry) : msg.Unknown s.calleeRelay.registry := by
  cases msg with
  | answer a => exact h.callee_none hmsg
  | inCall kind callId rest => exact h.callee_none hmsg
  | hangup reason callId =>
      cases callId with
      | some callId => exact h.callee_none hmsg
      | none => exact fun callId => h.callee_none (hmsg callId)

omit [DecidableEq ι] in
theorem post_nil (inboxes : Inboxes) (sender : Option Fingerprint) :
    inboxes.post parties sender ([] : List (Sent ι)) = inboxes := by
  simp only [Inboxes.post, List.filterMap_nil, List.append_nil]

theorem fromCaller_unknown (h : Agrees parties s) {msg : PartyMessage}
    (hmsg : msg.Unknown s.callerRelay.registry) : s.step parties (.fromCaller msg) = s := by
  simp only [step, signalFromCaller, handle_unknown hmsg, handle_unknown (h.unknown_single hmsg),
    post_nil, List.filterMap_nil, List.append_nil]

theorem fromCallee_unknown (h : Agrees parties s) {msg : PartyMessage}
    (hmsg : msg.Unknown s.callerRelay.registry) : s.step parties (.fromCallee msg) = s := by
  simp only [step, signalFromCallee, handle_unknown (h.unknown_callee hmsg),
    handle_unknown (h.unknown_single hmsg), post_nil, List.filterMap_nil, List.append_nil]

omit [DecidableEq ι] in
theorem lastOffered_append (callId : CallId) (known : Option CallerAddrs)
    (queue : List (Forward ι)) (forward : Forward ι) :
    lastOffered callId known (queue ++ [forward]) =
      lastOffered callId (lastOffered callId known queue) [forward] :=
  List.foldl_append

omit [DecidableEq ι] in
theorem Agrees.single_of_caller (h : Agrees parties s) {callId : CallId} {c : DirectCall ι}
    (hc : s.callerRelay.registry.get callId = some c) :
    ∃ d, s.single.registry.get callId = some d := by
  refine Option.ne_none_iff_exists'.mp fun hnone => ?_
  rw [(h.calls callId).absent.mp hnone] at hc
  exact absurd hc.symm (Option.some_ne_none c)

omit [DecidableEq ι] in
theorem Agrees.single_of_callee (h : Agrees parties s) {callId : CallId} {c : DirectCall ι}
    (hc : s.calleeRelay.registry.get callId = some c) :
    ∃ d, s.single.registry.get callId = some d := by
  obtain ⟨b, hb⟩ := Option.isSome_iff_exists.mp ((h.calls callId).callee c hc).2.2
  exact h.single_of_caller hb

/-- Reports of the caller. -/
theorem agrees_callerReport (h : Agrees parties s) {callId : CallId} {rest : Buf} {c : DirectCall ι}
    (hc : s.callerRelay.registry.get callId = some c)
    (hpeer : c.peerRelayFp = some s.calleeRelay.tlsFp) :
    Agrees parties (s.step parties (.fromCaller (.inCall .mediaPathReport callId rest))) := by
  obtain ⟨d, hd⟩ := h.single_of_caller hc
  obtain ⟨⟨hcaller, hcallee⟩, hlocal⟩ := (h.calls callId).single d hd
  have hbeyond : (s.calleeRelay.registry.get callId).isSome := by
    rcases ((h.calls callId).caller c hc).2 with hnone | ⟨-, hsome⟩
    · rw [hpeer] at hnone
      exact absurd hnone (Option.some_ne_none _)
    · exact hsome
  have hne := h.placed.parties_ne
  have hafter : s.step parties (.fromCaller (.inCall .mediaPathReport callId rest)) =
      { s with
        toCallee := s.toCallee ++ [⟨.inCall .mediaPathReport callId rest, s.callerRelay.tlsFp⟩]
        singleInboxes := { s.singleInboxes with
          callee := s.singleInboxes.callee ++ [.inCall .mediaPathReport callId rest] } } := by
    simp [step, signalFromCaller, PartyMessage.signal, SignalRelay.handleClientSignal_inCall,
      SignalRelay.handleInCall, hc, hd, SignalRelay.sendToParty, hpeer, hlocal,
      SignalRelay.sendSignalToPeer, h.placed.linked, SignalRelay.sendTo, DirectCall.peerFingerprint,
      hcaller, hcallee, h.placed.singleCallee, Inboxes.post, List.filterMap_cons, Sent.toParty,
      Sent.toRelay, hne.symm]
  rw [hafter]
  refine ⟨h.placed.of_same ⟨rfl, rfl, rfl⟩ ⟨rfl, rfl, rfl⟩ rfl,
    fun id => ?_, h.toCaller, fun f hf => ?_, h.callerInbox, ?_⟩
  · rw [lastOffered_append]
    exact h.calls id
  · rcases List.mem_append.mp hf with hold | hnew
    · exact h.toCallee f hold
    · obtain rfl := List.mem_singleton.mp hnew
      exact ⟨rfl, Or.inr ⟨callId, rest, rfl, hbeyond⟩⟩
  · rw [List.map_append, h.calleeInbox, List.map_append, List.append_assoc]
    rfl

/-- Reports of the callee. -/
theorem agrees_calleeReport (h : Agrees parties s) {callId : CallId} {rest : Buf} {c : DirectCall ι}
    (hc : s.calleeRelay.registry.get callId = some c) :
    Agrees parties (s.step parties (.fromCallee (.inCall .mediaPathReport callId rest))) := by
  obtain ⟨d, hd⟩ := h.single_of_callee hc
  obtain ⟨⟨hcaller, hcallee⟩, hlocal⟩ := (h.calls callId).single d hd
  obtain ⟨-, hpeer, hsome⟩ := (h.calls callId).callee c hc
  have hne := h.placed.parties_ne
  have hafter : s.step parties (.fromCallee (.inCall .mediaPathReport callId rest)) =
      { s with
        toCaller := s.toCaller ++ [⟨.inCall .mediaPathReport callId rest, s.calleeRelay.tlsFp⟩]
        singleInboxes := { s.singleInboxes with
          caller := s.singleInboxes.caller ++ [.inCall .mediaPathReport callId rest] } } := by
    simp [step, signalFromCallee, PartyMessage.signal, SignalRelay.handleClientSignal_inCall,
      SignalRelay.handleInCall, hc, hd, SignalRelay.sendToParty, hpeer, hlocal,
      SignalRelay.sendSignalToPeer, h.placed.linkedBack, SignalRelay.sendTo,
      DirectCall.peerFingerprint, hcaller, h.placed.singleCaller, Inboxes.post,
      List.filterMap_cons, Sent.toParty, Sent.toRelay, hne]
  rw [hafter]
  refine ⟨h.placed.of_same ⟨rfl, rfl, rfl⟩ ⟨rfl, rfl, rfl⟩ rfl,
    h.calls, fun f hf => ?_, h.toCallee, ?_, h.calleeInbox⟩
  · rcases List.mem_append.mp hf with hold | hnew
    · exact h.toCaller f hold
    · obtain rfl := List.mem_singleton.mp hnew
      exact ⟨rfl, Or.inr ⟨callId, rest, rfl, hsome⟩⟩
  · rw [List.map_append, h.callerInbox, List.flatMap_append, List.append_assoc]
    rfl

@[simp] theorem offerOf_callId (offer : DirectCallOffer) :
    (offerOf parties offer).callId = offer.callId := rfl

@[simp] theorem offerOf_targetFingerprint (offer : DirectCallOffer) :
    (offerOf parties offer).targetFingerprint = parties.callee.clientFp := rfl

@[simp] theorem offerOf_callerFingerprint (offer : DirectCallOffer) :
    (offerOf parties offer).callerFingerprint = parties.caller.clientFp := rfl

omit [DecidableEq ι] in
@[simp] theorem setCaller_offerOf (c : DirectCall ι) (offer : DirectCallOffer) :
    c.setCaller (offerOf parties offer) = c.setCaller offer := rfl

omit [DecidableEq ι] in
theorem isSome_createCall_modify {reg : CallRegistry ι} {callId : CallId}
    (h : (reg.get callId).isSome) (id : CallId) (callerFp calleeFp : Fingerprint)
    (f : DirectCall ι → DirectCall ι) :
    (((reg.createCall id callerFp calleeFp).modify id f).get callId).isSome := by
  rw [CallRegistry.get_createCall_modify]
  split
  · rfl
  · exact h

omit [DecidableEq ι] in
/-- An offer registers the call with the caller's relay and the single one; the
callee's relay is going to know the addresses. -/
theorem CallAgrees.offered {callerFp calleeFp : ι} {atCaller atCallee atSingle : Option (DirectCall ι)}
    {known : Option CallerAddrs}
    (h : CallAgrees parties callerFp calleeFp atCaller atCallee atSingle known)
    (offer : DirectCallOffer) :
    let call := (CallRegistry.pendingCall parties.caller.clientFp parties.callee.clientFp).setCaller offer
    CallAgrees parties callerFp calleeFp (some call) atCallee (some call) (some (offerAddrs offer)) where
  absent := ⟨fun heq => absurd heq (Option.some_ne_none _),
      fun heq => absurd heq (Option.some_ne_none _)⟩
  single := by
    intro c hc
    obtain rfl := Option.some.inj hc
    exact ⟨⟨rfl, rfl⟩, rfl⟩
  caller := by
    intro c hc
    obtain rfl := Option.some.inj hc
    exact ⟨⟨rfl, rfl⟩, Or.inl rfl⟩
  callee := by
    intro c hc
    obtain ⟨hbetween, hpeer, -⟩ := h.callee c hc
    exact ⟨hbetween, hpeer, rfl⟩
  known := by
    intro c hc
    obtain rfl := Option.some.inj hc
    rfl

/-- Offers. -/
theorem agrees_offer (h : Agrees parties s) (hqueue : s.toCaller = []) (offer : DirectCallOffer) :
    Agrees parties (s.step parties (.offer offer)) := by
  have hne := h.placed.parties_ne
  have hafter : s.step parties (.offer offer) =
      { s with
        callerRelay := { s.callerRelay with
          registry := (s.callerRelay.registry.createCall offer.callId parties.caller.clientFp
            parties.callee.clientFp).modify offer.callId (·.setCaller offer) }
        toCallee := s.toCallee ++
          [⟨.directCallOffer (offerOf parties offer), s.callerRelay.tlsFp⟩]
        inboxes := { s.inboxes with caller := s.inboxes.caller ++ [.callRinging offer.callId] }
        single := { s.single with
          registry := (s.single.registry.createCall offer.callId parties.caller.clientFp
            parties.callee.clientFp).modify offer.callId (·.setCaller offer) }
        singleInboxes := ⟨s.singleInboxes.caller ++ [.callRinging offer.callId],
          s.singleInboxes.callee ++ [.directCallOffer (offerOf parties offer)]⟩ } := by
    have hsend : s.callerRelay.broadcastSignal (.directCallOffer (offerOf parties offer)) =
        [.toPeer s.calleeRelay.tlsFp
          ⟨.directCallOffer (offerOf parties offer), s.callerRelay.tlsFp⟩] := by
      rw [SignalRelay.broadcastSignal, h.placed.linked]
      rfl
    simp [step, signalFromCaller, SignalRelay.handleClientSignal_offer, SignalRelay.handleOffer,
      h.placed.calleeElsewhere, h.placed.singleCallee, hsend, SignalRelay.sendTo, Inboxes.post,
      List.filterMap_cons, Sent.toParty, Sent.toRelay, hne, hne.symm]
  rw [hafter]
  refine ⟨h.placed.of_same ⟨rfl, rfl, rfl⟩ ⟨rfl, rfl, rfl⟩ rfl,
    fun callId => ?_, fun f hf => ?_, fun f hf => ?_, ?_, ?_⟩
  · simp only [CallRegistry.get_createCall_modify]
    rw [lastOffered_append]
    by_cases hid : callId = offer.callId
    · have hknown : ∀ known : Option CallerAddrs, lastOffered callId known
          [(⟨.directCallOffer (offerOf parties offer), s.callerRelay.tlsFp⟩ : Forward ι)] =
            some (offerAddrs offer) :=
        fun known => if_pos hid.symm
      simp only [if_pos hid, hknown]
      exact (h.calls callId).offered offer
    · have hknown : ∀ known : Option CallerAddrs, lastOffered callId known
          [(⟨.directCallOffer (offerOf parties offer), s.callerRelay.tlsFp⟩ : Forward ι)] = known :=
        fun known => if_neg fun heq => hid heq.symm
      simp only [if_neg hid, hknown]
      exact h.calls callId
  · rw [hqueue] at hf
    exact absurd hf List.not_mem_nil
  · rcases List.mem_append.mp hf with hold | hnew
    · exact (h.toCallee f hold).mono rfl (fun _ hsome => isSome_createCall_modify hsome _ _ _ _)
        fun _ hsome => hsome
    · obtain rfl := List.mem_singleton.mp hnew
      refine ⟨rfl, Or.inl ⟨offer, rfl, ?_⟩⟩
      simp only [CallRegistry.get_createCall_modify, if_true, Option.isSome_some]
  · have hinbox := h.callerInbox
    simp only [hqueue, List.flatMap_nil, List.append_nil] at hinbox ⊢
    rw [List.map_append, List.map_append, hinbox]
  · rw [List.map_append, h.calleeInbox, List.map_append, List.append_assoc]
    rfl

/-- What accepting does to a call. -/
def acceptedCall (answer : DirectCallAnswer) (c : DirectCall ι) : DirectCall ι :=
  (c.setActive answer.acceptMode (callPrefix ++ answer.callId)).setCallee answer

omit [DecidableEq ι] in
@[simp] theorem acceptedCall_between {answer : DirectCallAnswer} {c : DirectCall ι}
    {caller callee : Fingerprint} :
    (acceptedCall answer c).Between caller callee ↔ c.Between caller callee := by
  simp only [DirectCall.Between, acceptedCall, DirectCall.setCallee,
    DirectCall.setActive_callerFingerprint, DirectCall.setActive_calleeFingerprint]

omit [DecidableEq ι] in
@[simp] theorem acceptedCall_peerRelayFp (answer : DirectCallAnswer) (c : DirectCall ι) :
    (acceptedCall answer c).peerRelayFp = c.peerRelayFp :=
  c.setActive_peerRelayFp _ _

omit [DecidableEq ι] in
@[simp] theorem callAddrs_acceptedCall (answer : DirectCallAnswer) (c : DirectCall ι) :
    callAddrs (acceptedCall answer c) = callAddrs c := by
  rw [acceptedCall, DirectCall.setActive]
  split
  · rfl
  · rfl

omit [DecidableEq ι] in
/-- The callee's setup has the caller's addresses. -/
theorem setupForCallee_upToRelayAddr (c : DirectCall ι) (callId : CallId) (addr : String) :
    (CallSignal.callSetup (c.setupForCallee callId addr)).upToRelayAddr =
      .callSetup ⟨callId, callPrefix ++ callId, "", (callAddrs c).1, (callAddrs c).2.1,
        (callAddrs c).2.2⟩ := rfl

omit [DecidableEq ι] in
/-- The callee's relay and the single one accept the call alike. -/
theorem CallAgrees.accepted {callerFp calleeFp : ι} {atCaller : Option (DirectCall ι)}
    {c d : DirectCall ι} {known : Option CallerAddrs}
    (h : CallAgrees parties callerFp calleeFp atCaller (some c) (some d) known)
    (answer : DirectCallAnswer) :
    CallAgrees parties callerFp calleeFp atCaller (some (acceptedCall answer c))
      (some (acceptedCall answer d)) known where
  absent := by
    rw [← h.absent]
    exact ⟨fun heq => absurd heq (Option.some_ne_none _),
      fun heq => absurd heq (Option.some_ne_none _)⟩
  single := by
    intro e he
    obtain rfl := Option.some.inj he
    obtain ⟨hbetween, hlocal⟩ := h.single d rfl
    exact ⟨acceptedCall_between.mpr hbetween, (acceptedCall_peerRelayFp answer d).trans hlocal⟩
  caller := h.caller
  callee := by
    intro e he
    obtain rfl := Option.some.inj he
    obtain ⟨hbetween, hpeer, hsome⟩ := h.callee c rfl
    exact ⟨acceptedCall_between.mpr hbetween, (acceptedCall_peerRelayFp answer c).trans hpeer, hsome⟩
  known := by
    intro e he
    obtain rfl := Option.some.inj he
    rw [callAddrs_acceptedCall]
    exact h.known d rfl

/-- Accepting answers. -/
theorem agrees_accept (h : Agrees parties s) (hqueue : s.toCallee = []) {answer : DirectCallAnswer}
    (hmode : answer.acceptMode ≠ .reject) {c : DirectCall ι}
    (hc : s.calleeRelay.registry.get answer.callId = some c) :
    Agrees parties (s.step parties (.fromCallee (.answer answer))) := by
  obtain ⟨d, hd⟩ := h.single_of_callee hc
  obtain ⟨⟨hcaller, hcallee⟩, hlocal⟩ := (h.calls _).single d hd
  obtain ⟨-, hpeer, hsome⟩ := (h.calls _).callee c hc
  have hne := h.placed.parties_ne
  have haddrs : callAddrs c = callAddrs d := by
    have hknown := (h.calls _).known d hd
    rw [hqueue, hc] at hknown
    exact Option.some.inj hknown
  have hafter : s.step parties (.fromCallee (.answer answer)) =
      { s with
        calleeRelay := { s.calleeRelay with
          registry := s.calleeRelay.registry.modify answer.callId (acceptedCall answer) }
        toCaller := s.toCaller ++ [⟨.directCallAnswer answer, s.calleeRelay.tlsFp⟩]
        inboxes := { s.inboxes with
          callee := s.inboxes.callee ++ [.callSetup
            ((acceptedCall answer c).setupForCallee answer.callId s.calleeRelay.advertisedAddr)] }
        single := { s.single with
          registry := s.single.registry.modify answer.callId (acceptedCall answer) }
        singleInboxes := ⟨s.singleInboxes.caller ++ [.directCallAnswer answer, .callSetup
            ((acceptedCall answer d).setupForCaller answer.callId s.single.advertisedAddr)],
          s.singleInboxes.callee ++ [.callSetup
            ((acceptedCall answer d).setupForCallee answer.callId s.single.advertisedAddr)]⟩ } := by
    have hfold : ∀ e : DirectCall ι, (e.setActive answer.acceptMode
        (callPrefix ++ answer.callId)).setCallee answer = acceptedCall answer e := fun _ => rfl
    simp [step, signalFromCallee, PartyMessage.signal, SignalRelay.handleClientSignal_answer,
      SignalRelay.handleAnswer, hc, hd, hmode, hpeer, hlocal, hfold, SignalRelay.sendSignalToPeer,
      h.placed.linkedBack, SignalRelay.sendTo, DirectCall.peerFingerprint, hcaller,
      h.placed.singleCaller, h.placed.singleCallee, h.placed.calleeOnline, Inboxes.post,
      List.filterMap_cons, Sent.toParty, Sent.toRelay, hne, hne.symm]
  rw [hafter]
  refine ⟨h.placed.of_same ⟨rfl, rfl, rfl⟩ ⟨rfl, rfl, rfl⟩ rfl,
    fun callId => ?_, fun f hf => ?_, fun f hf => ?_, ?_, ?_⟩
  · by_cases hid : callId = answer.callId
    · subst hid
      have hagree := h.calls answer.callId
      rw [hc, hd] at hagree
      simp only [CallRegistry.get_modify, hc, hd, Option.map_some, callAddrs_acceptedCall]
      exact hagree.accepted answer
    · simp only [CallRegistry.get_modify_ne hid]
      exact h.calls callId
  · rcases List.mem_append.mp hf with hold | hnew
    · exact (h.toCaller f hold).mono rfl (fun _ hat => hat)
        fun _ hat => (CallRegistry.isSome_get_modify _ _ _ _).trans hat
    · obtain rfl := List.mem_singleton.mp hnew
      refine ⟨rfl, Or.inl ⟨answer, rfl, hmode, hsome, ?_⟩⟩
      rw [CallRegistry.isSome_get_modify, hc]
      rfl
  · rw [hqueue] at hf
    exact absurd hf List.not_mem_nil
  · rw [List.map_append, h.callerInbox, List.flatMap_append, List.append_assoc]
    rfl
  · have hinbox := h.calleeInbox
    simp only [hqueue, List.map_nil, List.append_nil] at hinbox ⊢
    simp only [List.map_append, hinbox, List.map_cons, List.map_nil, setupForCallee_upToRelayAddr,
      callAddrs_acceptedCall, haddrs]

/-- What a forwarded accepting answer does to the call on the caller's relay. -/
def answeredCall (origin : ι) (answer : DirectCallAnswer) (c : DirectCall ι) : DirectCall ι :=
  ((c.setActive answer.acceptMode (callPrefix ++ answer.callId)).setPeerRelayFp
    (some origin)).setCallee answer

omit [DecidableEq ι] in
@[simp] theorem answeredCall_between {origin : ι} {answer : DirectCallAnswer} {c : DirectCall ι}
    {caller callee : Fingerprint} :
    (answeredCall origin answer c).Between caller callee ↔ c.Between caller callee := by
  simp only [DirectCall.Between, answeredCall, DirectCall.setCallee, DirectCall.setPeerRelayFp,
    DirectCall.setActive_callerFingerprint, DirectCall.setActive_calleeFingerprint]

/-- A report reaches the caller's relay. -/
theorem agrees_reportArrives_caller (h : Agrees parties s) {forward : Forward ι}
    {queue : List (Forward ι)} (hqueue : s.toCaller = forward :: queue) {callId : CallId} {rest : Buf}
    (hinner : forward.inner = .inCall .mediaPathReport callId rest) {c : DirectCall ι}
    (hc : s.callerRelay.registry.get callId = some c) :
    Agrees parties (s.step parties .toCaller) := by
  have horigin := (h.toCaller forward (hqueue ▸ List.mem_cons_self)).1
  obtain ⟨hbetween, -⟩ := (h.calls callId).caller c hc
  have hne := h.placed.parties_ne
  have hafter : s.step parties .toCaller =
      { s with
        toCaller := queue
        inboxes := { s.inboxes with
          caller := s.inboxes.caller ++ [.inCall .mediaPathReport callId rest] } } := by
    simp [step, hqueue, SignalRelay.acceptForward, horigin, h.placed.apart.symm, hinner,
      SignalRelay.dispatch, hc, SignalRelay.sendTo, hbetween.1, hbetween.2, h.placed.callerOnline,
      h.placed.calleeElsewhere, Inboxes.post, List.filterMap_cons, Sent.toParty, Sent.toRelay, hne]
  rw [hafter]
  refine ⟨h.placed.of_same ⟨rfl, rfl, rfl⟩ ⟨rfl, rfl, rfl⟩ rfl,
    h.calls, fun f hf => ?_, h.toCallee, ?_, h.calleeInbox⟩
  · exact h.toCaller f (hqueue ▸ List.mem_cons_of_mem _ hf)
  · rw [h.callerInbox, hqueue, List.map_append, List.append_assoc, List.flatMap_cons, callerGets,
      hinner]
    rfl

omit [DecidableEq ι] in
/-- The caller's relay learns that the call is answered, and where the callee is. -/
theorem CallAgrees.answered {callerFp calleeFp : ι} {atCallee atSingle : Option (DirectCall ι)}
    {c : DirectCall ι} {known : Option CallerAddrs}
    (h : CallAgrees parties callerFp calleeFp (some c) atCallee atSingle known)
    (hsome : atCallee.isSome) (answer : DirectCallAnswer) :
    CallAgrees parties callerFp calleeFp (some (answeredCall calleeFp answer c)) atCallee atSingle
      known where
  absent := by
    rw [h.absent]
    exact ⟨fun heq => absurd heq (Option.some_ne_none _),
      fun heq => absurd heq (Option.some_ne_none _)⟩
  single := h.single
  caller := by
    intro e he
    obtain rfl := Option.some.inj he
    exact ⟨answeredCall_between.mpr (h.caller c rfl).1, Or.inr ⟨rfl, hsome⟩⟩
  callee := by
    intro e he
    obtain ⟨hbetween, hpeer, -⟩ := h.callee e he
    exact ⟨hbetween, hpeer, rfl⟩
  known := h.known

/-- An accepting answer reaches the caller's relay. -/
theorem agrees_answerArrives (h : Agrees parties s) {forward : Forward ι}
    {queue : List (Forward ι)} (hqueue : s.toCaller = forward :: queue) {answer : DirectCallAnswer}
    (hinner : forward.inner = .directCallAnswer answer) (hmode : answer.acceptMode ≠ .reject)
    {c : DirectCall ι} (hc : s.callerRelay.registry.get answer.callId = some c)
    (hcallee : (s.calleeRelay.registry.get answer.callId).isSome) :
    Agrees parties (s.step parties .toCaller) := by
  have horigin := (h.toCaller forward (hqueue ▸ List.mem_cons_self)).1
  obtain ⟨hbetween, -⟩ := (h.calls _).caller c hc
  have hne := h.placed.parties_ne
  have hafter : s.step parties .toCaller =
      { s with
        callerRelay := { s.callerRelay with
          registry := s.callerRelay.registry.modify answer.callId
            (answeredCall s.calleeRelay.tlsFp answer) }
        toCaller := queue
        inboxes := { s.inboxes with
          caller := s.inboxes.caller ++ [.directCallAnswer answer, .callSetup
            ((answeredCall s.calleeRelay.tlsFp answer c).setupForCaller answer.callId
              s.callerRelay.advertisedAddr)] } } := by
    have hfold : ∀ e : DirectCall ι, ((e.setActive answer.acceptMode
        (callPrefix ++ answer.callId)).setPeerRelayFp (some s.calleeRelay.tlsFp)).setCallee answer =
          answeredCall s.calleeRelay.tlsFp answer e := fun _ => rfl
    simp [step, hqueue, SignalRelay.acceptForward, horigin, h.placed.apart.symm, hinner,
      SignalRelay.dispatch, hc, hmode, hfold, SignalRelay.sendTo, hbetween.1,
      h.placed.callerOnline, Inboxes.post, List.filterMap_cons, Sent.toParty, Sent.toRelay, hne]
  rw [hafter]
  refine ⟨h.placed.of_same ⟨rfl, rfl, rfl⟩ ⟨rfl, rfl, rfl⟩ rfl,
    fun callId => ?_, fun f hf => ?_, fun f hf => ?_, ?_, h.calleeInbox⟩
  · by_cases hid : callId = answer.callId
    · subst hid
      have hagree := h.calls answer.callId
      rw [hc] at hagree
      simp only [CallRegistry.get_modify, hc]
      exact hagree.answered hcallee answer
    · simp only [CallRegistry.get_modify_ne hid]
      exact h.calls callId
  · exact (h.toCaller f (hqueue ▸ List.mem_cons_of_mem _ hf)).mono rfl
      (fun _ hat => (CallRegistry.isSome_get_modify _ _ _ _).trans hat) fun _ hat => hat
  · exact (h.toCallee f hf).mono rfl
      (fun _ hat => (CallRegistry.isSome_get_modify _ _ _ _).trans hat) fun _ hat => hat
  · rw [h.callerInbox, hqueue, List.map_append, List.append_assoc, List.flatMap_cons, callerGets,
      hinner]
    rfl

omit [DecidableEq ι] in
theorem lastOffered_report {callId id : CallId} {rest : Buf} {forward : Forward ι}
    (hinner : forward.inner = .inCall .mediaPathReport id rest) (known : Option CallerAddrs)
    (queue : List (Forward ι)) :
    lastOffered callId known (forward :: queue) = lastOffered callId known queue := by
  rw [lastOffered, List.foldl_cons, hinner]
  rfl

omit [DecidableEq ι] in
theorem lastOffered_offer {callId : CallId} {offer : DirectCallOffer} {forward : Forward ι}
    (hinner : forward.inner = .directCallOffer (offerOf parties offer))
    (known : Option CallerAddrs) (queue : List (Forward ι)) :
    lastOffered callId known (forward :: queue) =
      lastOffered callId (if offer.callId = callId then some (offerAddrs offer) else known) queue := by
  rw [lastOffered, List.foldl_cons, hinner]
  rfl

/-- A report reaches the callee's relay. -/
theorem agrees_reportArrives_callee (h : Agrees parties s) {forward : Forward ι}
    {queue : List (Forward ι)} (hqueue : s.toCallee = forward :: queue) {callId : CallId} {rest : Buf}
    (hinner : forward.inner = .inCall .mediaPathReport callId rest) {c : DirectCall ι}
    (hc : s.calleeRelay.registry.get callId = some c) :
    Agrees parties (s.step parties .toCallee) := by
  have horigin := (h.toCallee forward (hqueue ▸ List.mem_cons_self)).1
  obtain ⟨hbetween, -⟩ := (h.calls callId).callee c hc
  have hne := h.placed.parties_ne
  have hafter : s.step parties .toCallee =
      { s with
        toCallee := queue
        inboxes := { s.inboxes with
          callee := s.inboxes.callee ++ [.inCall .mediaPathReport callId rest] } } := by
    simp [step, hqueue, SignalRelay.acceptForward, horigin, h.placed.apart, hinner,
      SignalRelay.dispatch, hc, SignalRelay.sendTo, hbetween.1, hbetween.2, h.placed.calleeOnline,
      h.placed.callerElsewhere, Inboxes.post, List.filterMap_cons, Sent.toParty, Sent.toRelay,
      hne.symm]
  rw [hafter]
  refine ⟨h.placed.of_same ⟨rfl, rfl, rfl⟩ ⟨rfl, rfl, rfl⟩ rfl,
    fun id => ?_, h.toCaller, fun f hf => ?_, h.callerInbox, ?_⟩
  · rw [← lastOffered_report hinner, ← hqueue]
    exact h.calls id
  · exact h.toCallee f (hqueue ▸ List.mem_cons_of_mem _ hf)
  · rw [h.calleeInbox, hqueue, List.map_append, List.append_assoc, List.map_cons, hinner]
    rfl

omit [DecidableEq ι] in
/-- The callee's relay registers the call, with the caller's relay as the other one. -/
theorem CallAgrees.arrived {callerFp calleeFp : ι} {atCaller atCallee atSingle : Option (DirectCall ι)}
    {known : Option CallerAddrs}
    (h : CallAgrees parties callerFp calleeFp atCaller atCallee atSingle known)
    (hsome : atCaller.isSome) (offer : DirectCallOffer) :
    CallAgrees parties callerFp calleeFp atCaller
      (some (((CallRegistry.pendingCall parties.caller.clientFp
        parties.callee.clientFp).setCaller offer).setPeerRelayFp (some callerFp))) atSingle known where
  absent := h.absent
  single := h.single
  caller := by
    intro c hc
    obtain ⟨hbetween, hpeer | ⟨hpeer, -⟩⟩ := h.caller c hc
    · exact ⟨hbetween, Or.inl hpeer⟩
    · exact ⟨hbetween, Or.inr ⟨hpeer, rfl⟩⟩
  callee := by
    intro c hc
    obtain rfl := Option.some.inj hc
    exact ⟨⟨rfl, rfl⟩, rfl, hsome⟩
  known := h.known

/-- An offer reaches the callee's relay. -/
theorem agrees_offerArrives (h : Agrees parties s) {forward : Forward ι}
    {queue : List (Forward ι)} (hqueue : s.toCallee = forward :: queue) {offer : DirectCallOffer}
    (hinner : forward.inner = .directCallOffer (offerOf parties offer))
    (hsome : (s.callerRelay.registry.get offer.callId).isSome) :
    Agrees parties (s.step parties .toCallee) := by
  have horigin := (h.toCallee forward (hqueue ▸ List.mem_cons_self)).1
  have hne := h.placed.parties_ne
  have hafter : s.step parties .toCallee =
      { s with
        calleeRelay := { s.calleeRelay with
          registry := (s.calleeRelay.registry.createCall offer.callId parties.caller.clientFp
            parties.callee.clientFp).modify offer.callId fun c =>
              (c.setCaller offer).setPeerRelayFp (some s.callerRelay.tlsFp) }
        toCallee := queue
        inboxes := { s.inboxes with
          callee := s.inboxes.callee ++ [.directCallOffer (offerOf parties offer)] } } := by
    simp [step, hqueue, SignalRelay.acceptForward, horigin, h.placed.apart, hinner,
      SignalRelay.dispatch, h.placed.calleeOnline, SignalRelay.sendTo, Inboxes.post,
      List.filterMap_cons, Sent.toParty, Sent.toRelay, hne.symm]
  rw [hafter]
  refine ⟨h.placed.of_same ⟨rfl, rfl, rfl⟩ ⟨rfl, rfl, rfl⟩ rfl,
    fun callId => ?_, fun f hf => ?_, fun f hf => ?_, h.callerInbox, ?_⟩
  · have hagree := h.calls callId
    rw [hqueue, lastOffered_offer hinner] at hagree
    simp only [CallRegistry.get_createCall_modify]
    by_cases hid : callId = offer.callId
    · simp only [if_pos hid, if_pos hid.symm] at hagree ⊢
      exact hagree.arrived (hid ▸ hsome) offer
    · rw [if_neg fun heq => hid heq.symm] at hagree
      simp only [if_neg hid]
      exact hagree
  · exact (h.toCaller f hf).mono rfl (fun _ hat => hat)
      fun _ hat => isSome_createCall_modify hat _ _ _ _
  · exact (h.toCallee f (hqueue ▸ List.mem_cons_of_mem _ hf)).mono rfl (fun _ hat => hat)
      fun _ hat => isSome_createCall_modify hat _ _ _ _
  · rw [h.calleeInbox, hqueue, List.map_append, List.append_assoc, List.map_cons, hinner]
    rfl

/-! ## Runs -/

theorem agrees_toCaller (h : Agrees parties s) : Agrees parties (s.step parties .toCaller) := by
  cases hqueue : s.toCaller with
  | nil =>
      have hsame : s.step parties .toCaller = s := by
        simp only [step, hqueue]
      rw [hsame]
      exact h
  | cons forward queue =>
      obtain ⟨-, ⟨answer, hinner, hmode, hsome, hcallee⟩ | ⟨callId, rest, hinner, hsome⟩⟩ :=
        h.toCaller forward (hqueue ▸ List.mem_cons_self)
      · obtain ⟨c, hc⟩ := Option.isSome_iff_exists.mp hsome
        exact agrees_answerArrives h hqueue hinner hmode hc hcallee
      · obtain ⟨c, hc⟩ := Option.isSome_iff_exists.mp hsome
        exact agrees_reportArrives_caller h hqueue hinner hc

theorem agrees_toCallee (h : Agrees parties s) : Agrees parties (s.step parties .toCallee) := by
  cases hqueue : s.toCallee with
  | nil =>
      have hsame : s.step parties .toCallee = s := by
        simp only [step, hqueue]
      rw [hsame]
      exact h
  | cons forward queue =>
      obtain ⟨-, ⟨offer, hinner, hsome⟩ | ⟨callId, rest, hinner, hsome⟩⟩ :=
        h.toCallee forward (hqueue ▸ List.mem_cons_self)
      · exact agrees_offerArrives h hqueue hinner hsome
      · obtain ⟨c, hc⟩ := Option.isSome_iff_exists.mp hsome
        exact agrees_reportArrives_callee h hqueue hinner hc

/-- Benign steps keep the two sides in agreement. -/
theorem agrees_step (h : Agrees parties s) {e : CrossCallEvent} (hbenign : Benign s e) :
    Agrees parties (s.step parties e) := by
  cases e with
  | offer offer => exact agrees_offer h hbenign offer
  | fromCaller msg =>
      rcases hbenign with hunknown | ⟨callId, rest, rfl, c, hc, hpeer⟩
      · rw [fromCaller_unknown h hunknown]
        exact h
      · exact agrees_callerReport h hc hpeer
  | fromCallee msg =>
      rcases hbenign with hunknown | ⟨callId, rest, rfl, hsome⟩ | ⟨answer, rfl, hmode, hsome, hqueue⟩
      · rw [fromCallee_unknown h hunknown]
        exact h
      · obtain ⟨c, hc⟩ := Option.isSome_iff_exists.mp hsome
        exact agrees_calleeReport h hc
      · obtain ⟨c, hc⟩ := Option.isSome_iff_exists.mp hsome
        exact agrees_accept h hqueue hmode hc
  | toCaller => exact agrees_toCaller h
  | toCallee => exact agrees_toCallee h

omit [DecidableEq ι] in
/-- No call has been made yet. -/
def start (callerRelay calleeRelay single : SignalRelay ι κ) : CrossCall ι κ :=
  { callerRelay := { callerRelay with registry := ∅ }
    calleeRelay := { calleeRelay with registry := ∅ }
    toCaller := []
    toCallee := []
    inboxes := ⟨[], []⟩
    single := { single with registry := ∅ }
    singleInboxes := ⟨[], []⟩ }

omit [DecidableEq ι] in
theorem agrees_start {callerRelay calleeRelay single : SignalRelay ι κ}
    (hplaced : Placed parties (start callerRelay calleeRelay single)) :
    Agrees parties (start callerRelay calleeRelay single) := by
  refine ⟨hplaced, fun callId => ?_, fun _ hf => absurd hf List.not_mem_nil,
    fun _ hf => absurd hf List.not_mem_nil, rfl, rfl⟩
  have hnone : ∀ c, c ∉ (none : Option (DirectCall ι)) :=
    fun c hc => absurd (Eq.symm hc) (Option.some_ne_none c)
  exact ⟨⟨fun _ => rfl, fun _ => rfl⟩, fun c hc => absurd hc (hnone c), fun c hc => absurd hc (hnone c),
    fun c hc => absurd hc (hnone c), fun c hc => absurd hc (hnone c)⟩

/-- In runs of benign steps, whenever all envelopes have arrived, the two
parties have been sent what a single relay would have sent, and no relay knows
a call that the single one does not. -/
theorem cross_call_matches {callerRelay calleeRelay single : SignalRelay ι κ}
    (hplaced : Placed parties (start callerRelay calleeRelay single)) {es : List CrossCallEvent}
    (hbenign : EachStep (step parties) Benign (start callerRelay calleeRelay single) es) :
    Throughout (step parties) (fun s => s.Settled → s.Matches)
      (start callerRelay calleeRelay single) es :=
  Throughout.mono (fun _ => Agrees.matches)
    (throughout_of_eachStep (fun _ _ h hok => agrees_step h hok) (agrees_start hplaced) hbenign)

end CrossCall

/-! ## A rejected call -/
namespace RejectedCall
open CrossCall

def parties : CallParties := ⟨⟨"alice", ""⟩, ⟨"bob", ""⟩⟩

def onlineHub (fps : List Fingerprint) : SignalHub Unit :=
  fps.foldl (fun hub fp => hub.register fp () none) ∅

/-- Alice on the first relay, Bob on the second, both on the third. -/
def begin : CrossCall ℕ Unit :=
  start ⟨onlineHub ["alice"], ∅, some [1], 0, "first"⟩ ⟨onlineHub ["bob"], ∅, some [0], 1, "second"⟩
    ⟨onlineHub ["alice", "bob"], ∅, none, 2, "single"⟩

def offer : DirectCallOffer := ⟨"alice", "bob", [1], none, [], none, []⟩

def answer (mode : CallAcceptMode) : DirectCallAnswer := ⟨[1], mode, none, [], none, []⟩

theorem placed : Placed parties begin :=
  ⟨by decide, by decide, by decide, by decide, by decide, by decide, by decide, by decide, by decide⟩

/-- Bob accepts, and reports the path of his media. -/
theorem cross_call_matches_accepted :
    Throughout (step parties) (fun s => s.Settled → s.Matches) begin
      [.offer offer, .toCallee, .fromCallee (.answer (answer .acceptTrusted)),
        .fromCallee (.inCall .mediaPathReport [1] []), .toCaller, .toCaller] :=
  cross_call_matches placed ⟨rfl, trivial, Or.inr (Or.inr ⟨_, rfl, by decide, by decide, by decide⟩),
    Or.inr (Or.inl ⟨_, _, rfl, by decide⟩), trivial, trivial, trivial⟩

/-- Bob rejects, and the call stays registered on Alice's relay. -/
theorem rejected_call_stays :
    Placed parties begin ∧
      ¬ Throughout (step parties) (fun s => s.Settled → s.Matches) begin
        [.offer offer, .toCallee, .fromCallee (.answer (answer .reject)), .toCaller] := by
  refine ⟨placed, fun h => ?_⟩
  have hmatches := h.last ⟨by decide, by decide⟩
  exact absurd (hmatches.absent [1] (by decide)).1 (by decide)

end RejectedCall
end Wzp.Relay
