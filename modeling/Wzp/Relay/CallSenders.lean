import Wzp.Relay.CallParties

/-!
# Who acts on a call

The handlers find a call by its id and treat a sender who is not the caller as
the callee. Signals of clients that have no part in the call therefore take
effect, with the exceptions stated here.
-/
namespace Wzp.Relay
open Bytes

namespace SignalRelay
variable {ι κ : Type} [DecidableEq ι]

/-- The message goes to a party of the call, or in an envelope to a relay whose
dispatcher sends it on to one. -/
def Reaches (net : ι → SignalRelay ι κ) (c : DirectCall ι) : Sent ι → Prop
  | .toClient fp _ => c.HasParty fp
  | .toPeer peer forward => ∃ inner origin fp msg,
      (net peer).acceptForward forward = some (inner, origin) ∧
        .toClient fp msg ∈ ((net peer).dispatch origin inner).sent ∧ c.HasParty fp
  | .reply _ => False

/-- A signal about a call from a client that is not a party changes nothing and
reaches no party; an answer takes effect only if it comes from the callee. -/
structure OnlyParties (net : ι → SignalRelay ι κ) (relay : SignalRelay ι κ) (client : SignalPeer)
    (msg : CallSignal) : Prop where
  bystander : ∀ callId c, msg.callId? = some callId → relay.registry.get callId = some c →
    ¬ c.HasParty client.clientFp →
      (relay.handleClientSignal client msg).relay.registry.get callId = some c ∧
        ∀ s ∈ (relay.handleClientSignal client msg).sent, ¬ Reaches net c s
  answer : ∀ answer c, msg = .directCallAnswer answer → relay.registry.get answer.callId = some c →
    c.calleeFingerprint ≠ client.clientFp →
      (relay.handleClientSignal client msg).relay.registry.get answer.callId = some c ∧
        (relay.handleClientSignal client msg).sent = []

/-- The relay sends a forwarded in-call signal on to a party of the call: it
forwards media path reports only, to the parties it knows and has online. -/
def PassesOn (peer : SignalRelay ι κ) (sender : ι) (kind : InCallKind) (callId : CallId)
    (c : DirectCall ι) : Prop :=
  kind = .mediaPathReport ∧ sender ≠ peer.tlsFp ∧
    ∃ c' fp, peer.registry.get callId = some c' ∧ c'.HasParty fp ∧
      peer.hub.isOnline fp = true ∧ c.HasParty fp

/-- An in-call signal of a bystander comes to nothing: it goes to the caller, who
is not online; or to the relay of the call, which is not linked or does not pass
it on. -/
def Undelivered (net : ι → SignalRelay ι κ) (relay : SignalRelay ι κ) (kind : InCallKind)
    (callId : CallId) (c : DirectCall ι) : Prop :=
  match c.peerRelayFp with
  | some origin => (∀ peers, relay.peers = some peers → origin ∉ peers) ∨
      ¬ (net origin).PassesOn relay.tlsFp kind callId c
  | none => relay.hub.isOnline c.callerFingerprint = false

/-- The sender may send this signal: as a party, answers as the callee only; or
it comes to nothing. -/
def ByRight (net : ι → SignalRelay ι κ) (relay : SignalRelay ι κ) (client : SignalPeer) :
    CallSignal → Prop
  | .directCallOffer offer => ∀ c, relay.registry.get offer.callId = some c →
      c.HasParty client.clientFp ∨ relay.offerAccepted offer = false
  | .directCallAnswer answer => ∀ c, relay.registry.get answer.callId = some c →
      c.calleeFingerprint = client.clientFp
  | .hangup _ (some callId) => ∀ c, relay.registry.get callId = some c → c.HasParty client.clientFp
  | .inCall kind callId _ => ∀ c, relay.registry.get callId = some c →
      c.HasParty client.clientFp ∨ Undelivered net relay kind callId c
  | _ => True

variable {net : ι → SignalRelay ι κ} {relay : SignalRelay ι κ} {client : SignalPeer}
  {c : DirectCall ι}

omit [DecidableEq ι] in
theorem handleOffer_refused {offer : DirectCallOffer} (h : relay.offerAccepted offer = false) :
    relay.handleOffer client offer = ⟨relay, [.reply (.hangup .normal none)]⟩ := by
  rw [offerAccepted, Bool.or_eq_false_iff, decide_eq_false_iff_not] at h
  rw [handleOffer, if_neg (by rw [h.1]; exact Bool.false_ne_true), if_neg h.2]

omit [DecidableEq ι] in
theorem sendTo_online {fp : Fingerprint} (h : relay.hub.isOnline fp = true) (msg : CallSignal) :
    relay.sendTo fp msg = [.toClient fp msg] := by
  rw [sendTo, if_pos h]

omit [DecidableEq ι] in
theorem mem_sendTo {fp fp' : Fingerprint} {msg msg' : CallSignal} :
    Sent.toClient fp' msg' ∈ relay.sendTo fp msg ↔
      relay.hub.isOnline fp = true ∧ fp' = fp ∧ msg' = msg := by
  rw [sendTo]
  split
  · rename_i hon
    simp only [List.mem_singleton, Sent.toClient.injEq, hon, true_and]
  · rename_i hoff
    exact ⟨fun h => absurd h List.not_mem_nil, fun h => absurd h.1 hoff⟩

omit [DecidableEq ι] in
/-- Who gets a forwarded in-call signal: the online parties of a known call, and
only of a media path report. -/
theorem toClient_mem_dispatch_inCall {origin : ι} {kind : InCallKind} {callId : CallId}
    {rest : Buf} {fp : Fingerprint} :
    (∃ msg, .toClient fp msg ∈ (relay.dispatch origin (.inCall kind callId rest)).sent) ↔
      kind = .mediaPathReport ∧ ∃ c', relay.registry.get callId = some c' ∧ c'.HasParty fp ∧
        relay.hub.isOnline fp = true := by
  by_cases hkind : kind = .mediaPathReport
  · subst hkind
    cases hget : relay.registry.get callId with
    | none => simp [dispatch, hget]
    | some c' =>
        simp only [dispatch, hget, List.mem_append, mem_sendTo, true_and, Option.some.injEq,
          exists_eq_left', DirectCall.HasParty]
        constructor
        · rintro ⟨msg, ⟨hon, rfl, _⟩ | ⟨hon, rfl, _⟩⟩
          · exact ⟨Or.inl rfl, hon⟩
          · exact ⟨Or.inr rfl, hon⟩
        · rintro ⟨rfl | rfl, hon⟩
          · exact ⟨_, Or.inl ⟨hon, rfl, rfl⟩⟩
          · exact ⟨_, Or.inr ⟨hon, rfl, rfl⟩⟩
  · have hnone : (relay.dispatch origin (.inCall kind callId rest)).sent = [] := by
      cases kind with
      | mediaPathReport => exact absurd rfl hkind
      | _ => rfl
    simp only [hnone, List.not_mem_nil, exists_false, hkind, false_and]

/-- An in-call envelope reaches a party exactly if the relay passes it on. -/
theorem reaches_envelope {peer sender : ι} {kind : InCallKind} {callId : CallId} {rest : Buf} :
    Reaches net c (.toPeer peer ⟨.inCall kind callId rest, sender⟩) ↔
      (net peer).PassesOn sender kind callId c := by
  simp only [Reaches, acceptForward, PassesOn]
  constructor
  · rintro ⟨inner, origin, fp, msg, haccept, hsent, hparty⟩
    rw [Option.ite_none_left_eq_some, Option.some.injEq, Prod.mk.injEq] at haccept
    obtain ⟨hown, rfl, rfl⟩ := haccept
    obtain ⟨hkind, c', hget, hfp, hon⟩ := toClient_mem_dispatch_inCall.mp ⟨msg, hsent⟩
    exact ⟨hkind, hown, c', fp, hget, hfp, hon, hparty⟩
  · rintro ⟨hkind, hown, c', fp, hget, hfp, hon, hparty⟩
    obtain ⟨msg, hsent⟩ := (@toClient_mem_dispatch_inCall _ _ (net peer) sender _ _ rest _).mpr
      ⟨hkind, c', hget, hfp, hon⟩
    exact ⟨_, _, fp, msg, if_neg hown, hsent, hparty⟩

/-- What a bystander sends towards a call comes to nothing or reaches a party. -/
theorem sendToParty_bystander (hparty : ¬ c.HasParty client.clientFp) (kind : InCallKind)
    (callId : CallId) (rest : Buf) :
    (∀ s ∈ relay.sendToParty c client.clientFp (.inCall kind callId rest), ¬ Reaches net c s) ↔
      Undelivered net relay kind callId c := by
  have hpeer : c.peerFingerprint client.clientFp = c.callerFingerprint :=
    if_neg fun h => hparty (Or.inl h)
  rw [sendToParty, Undelivered]
  cases c.peerRelayFp with
  | some origin =>
      simp only [sendSignalToPeer]
      cases relay.peers with
      | none => exact ⟨fun _ => Or.inl fun _ h => absurd h.symm (Option.some_ne_none _),
          fun _ _ hs => absurd hs List.not_mem_nil⟩
      | some peers =>
          simp only [Option.some.injEq, forall_eq']
          by_cases hmem : origin ∈ peers
          · rw [if_pos hmem, List.forall_mem_singleton, reaches_envelope, or_iff_right]
            exact not_not.mpr hmem
          · rw [if_neg hmem]
            exact ⟨fun _ => Or.inl hmem, fun _ s hs => absurd hs List.not_mem_nil⟩
  | none =>
      simp only [hpeer, sendTo]
      cases hon : relay.hub.isOnline c.callerFingerprint with
      | true =>
          constructor
          · intro h
            exact absurd (Or.inl rfl) (h (.toClient c.callerFingerprint _) List.mem_cons_self)
          · intro h
            exact absurd h.symm Bool.false_ne_true
      | false => exact ⟨fun _ => rfl, fun _ s hs => absurd hs List.not_mem_nil⟩

theorem onlyParties_offer (offer : DirectCallOffer) :
    OnlyParties net relay client (.directCallOffer offer) ↔
      ByRight net relay client (.directCallOffer offer) := by
  constructor
  · intro h c hc
    by_contra hnot
    obtain ⟨hparty, hacc⟩ := not_or.mp hnot
    have hkept := (h.bystander offer.callId c rfl hc hparty).1
    simp only [handleClientSignal_offer, handleOffer_registry,
      if_pos ((Bool.not_eq_false _).mp hacc)] at hkept
    -- the call is now one of the sender's
    have hget := get_created relay.registry offer.callId offer.callId client.clientFp
      offer.targetFingerprint (f := (·.setCaller offer)) fun _ => ⟨rfl, rfl⟩
    rw [if_pos rfl] at hget
    obtain ⟨c', hc', hbetween⟩ := hget
    obtain rfl := Option.some.inj (hkept.symm.trans hc')
    exact hparty (Or.inl hbetween.1)
  · intro h
    refine ⟨fun callId c hid hc hparty => ?_, fun _ _ heq => CallSignal.noConfusion heq⟩
    obtain rfl := Option.some.inj hid
    have hacc := (h c hc).resolve_left hparty
    simp only [handleClientSignal_offer, handleOffer_refused hacc, List.mem_singleton]
    refine ⟨hc, ?_⟩
    rintro s rfl hreach
    exact hreach

theorem onlyParties_answer (honline : relay.hub.isOnline client.clientFp = true)
    (answer : DirectCallAnswer) :
    OnlyParties net relay client (.directCallAnswer answer) ↔
      ByRight net relay client (.directCallAnswer answer) := by
  constructor
  · intro h c hc
    by_contra hnot
    obtain ⟨hkept, hnone⟩ := h.answer answer c rfl hc hnot
    simp only [handleClientSignal_answer, handleAnswer, hc] at hkept hnone
    by_cases hmode : answer.acceptMode = .reject
    · simp only [if_pos hmode, CallRegistry.get_endCall] at hkept
      exact absurd hkept.symm (Option.some_ne_none c)
    · -- an accepting answer always brings its sender a setup
      simp only [if_neg hmode] at hnone
      split at hnone
      · rw [sendTo_online honline] at hnone
        exact absurd (List.append_eq_nil_iff.mp hnone).2 (List.cons_ne_nil _ _)
      · rw [sendTo_online honline] at hnone
        exact absurd (List.append_eq_nil_iff.mp hnone).2 (List.cons_ne_nil _ _)
  · intro h
    refine ⟨fun callId c hid hc hparty => ?_, fun answer' c heq hc hne => ?_⟩
    · obtain rfl := Option.some.inj hid
      exact absurd (Or.inr (h c hc)) hparty
    · obtain rfl := CallSignal.directCallAnswer.inj heq
      exact absurd (h c hc) hne

theorem onlyParties_hangup (reason : HangupReason) (callId : Option CallId) :
    OnlyParties net relay client (.hangup reason callId) ↔ ByRight net relay client (.hangup reason callId) := by
  cases callId with
  | none => exact ⟨fun _ => trivial, fun _ => ⟨fun _ _ hid => absurd hid.symm (Option.some_ne_none _),
      fun _ _ heq => CallSignal.noConfusion heq⟩⟩
  | some callId =>
      constructor
      · intro h c hc
        by_contra hparty
        have hkept := (h.bystander callId c rfl hc hparty).1
        simp only [handleClientSignal_hangup, handleHangup, hangupCalls, hc, Option.toList_some,
          List.map_cons, List.map_nil, List.foldl_cons, List.foldl_nil,
          CallRegistry.get_endCall] at hkept
        exact absurd hkept.symm (Option.some_ne_none c)
      · intro h
        refine ⟨fun callId' c hid hc hparty => ?_, fun _ _ heq => CallSignal.noConfusion heq⟩
        obtain rfl := Option.some.inj hid
        exact absurd (h c hc) hparty

theorem onlyParties_inCall (kind : InCallKind) (callId : CallId) (rest : Buf) :
    OnlyParties net relay client (.inCall kind callId rest) ↔
      ByRight net relay client (.inCall kind callId rest) := by
  constructor
  · intro h c hc
    by_contra hnot
    obtain ⟨hparty, hreach⟩ := not_or.mp hnot
    have hsent := (h.bystander callId c rfl hc hparty).2
    simp only [handleClientSignal_inCall, handleInCall, hc] at hsent
    exact hreach ((sendToParty_bystander hparty kind callId rest).mp hsent)
  · intro h
    refine ⟨fun callId' c hid hc hparty => ?_, fun _ _ heq => CallSignal.noConfusion heq⟩
    obtain rfl := Option.some.inj hid
    simp only [handleClientSignal_inCall, handleInCall, hc]
    exact ⟨trivial, (sendToParty_bystander hparty kind callId rest).mpr ((h c hc).resolve_left hparty)⟩

/-- A signal of a registered client is handled as one of the parties' own only
exactly if the client sends it by right. -/
theorem only_parties_iff (honline : relay.hub.isOnline client.clientFp = true) (msg : CallSignal) :
    OnlyParties net relay client msg ↔ ByRight net relay client msg := by
  have hignored : ∀ msg, relay.handleClientSignal client msg = ⟨relay, []⟩ →
      (∀ answer, msg ≠ .directCallAnswer answer) → OnlyParties net relay client msg := by
    intro msg hmsg hanswer
    refine ⟨fun callId c _ hc _ => ?_, fun answer _ heq => absurd heq (hanswer answer)⟩
    rw [hmsg]
    exact ⟨hc, fun s hs => absurd hs List.not_mem_nil⟩
  cases msg with
  | directCallOffer offer => exact onlyParties_offer offer
  | directCallAnswer answer => exact onlyParties_answer honline answer
  | hangup reason callId => exact onlyParties_hangup reason callId
  | inCall kind callId rest => exact onlyParties_inCall kind callId rest
  | callSetup setup =>
      exact ⟨fun _ => trivial, fun _ => hignored _ rfl fun _ h => CallSignal.noConfusion h⟩
  | callRinging callId =>
      exact ⟨fun _ => trivial, fun _ => hignored _ rfl fun _ h => CallSignal.noConfusion h⟩
  | _ => exact ⟨fun _ => trivial, fun _ => ⟨fun _ _ hid => absurd hid.symm (Option.some_ne_none _),
      fun _ _ heq => CallSignal.noConfusion heq⟩⟩

end SignalRelay

namespace ThirdClient
open SignalRelay

/-- Both ends of a cross-relay call; on either relay the other one is linked. -/
def linked : Bool → SignalRelay Bool ℕ
  | home =>
      { hub := if home then (AList.singleton "alice" ⟨"alice", none, 0⟩).insert "mallory"
            ⟨"mallory", none, 1⟩
          else AList.singleton "bob" ⟨"bob", none, 2⟩
        registry := CallRegistry.modify (CallRegistry.createCall ∅ [1] "alice" "bob") [1]
          (·.setPeerRelayFp (some !home))
        peers := some [!home]
        tlsFp := home
        advertisedAddr := "relay" }

/-- A candidate update of Mallory goes to the other relay, which drops it. -/
theorem only_parties_iff_candidateUpdate :
    OnlyParties linked (linked true) ⟨"mallory", ""⟩ (.inCall .candidateUpdate [1] []) :=
  (only_parties_iff (by decide) _).mpr fun c hc => by
    have hcall : (linked true).registry.get [1] = some
        ((CallRegistry.pendingCall "alice" "bob").setPeerRelayFp (some false)) := by decide
    obtain rfl := Option.some.inj (hcall.symm.trans hc)
    exact Or.inr (Or.inr fun h => absurd h.1 (by decide))

/-- Mallory rejects the call of Alice and Bob. -/
theorem third_client_rejects : ¬ OnlyParties (fun _ => relay) relay ⟨"mallory", ""⟩
    (.directCallAnswer (answer .reject)) := by
  intro h
  have hpending := h.answer _ (CallRegistry.pendingCall "alice" "bob") rfl (by decide) (by decide)
  exact absurd hpending.1 (by decide)

end ThirdClient
end Wzp.Relay
