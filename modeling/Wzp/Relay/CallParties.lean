import Wzp.Lib.Runs
import Wzp.Relay.SignalLoop

/-!
# The parties of a call

Call ids are chosen by the clients, and the signal loop looks a call up by the
id that a signal names. Who may change a call, and who is admitted to its room,
depends on what the handlers check of the sender.
-/
namespace Wzp.Relay
open Bytes Runs

/-- What happens to the signal handlers of a relay. -/
inductive SignalEvent (ι κ : Type) where
  | connected (fp : Fingerprint) (transport : κ) («alias» : Option String)
  | signal (client : SignalPeer) (msg : CallSignal)
  | forwarded (forward : Forward ι)
  | disconnected (fp : Fingerprint)
  | linked (peers : Option (List ι))

namespace SignalRelay
variable {ι κ : Type} [DecidableEq ι]

def step (relay : SignalRelay ι κ) : SignalEvent ι κ → SignalRelay ι κ
  | .connected fp transport name => { relay with hub := relay.hub.register fp transport name }
  | .signal client msg => (relay.handleClientSignal client msg).relay
  | .forwarded forward =>
      match relay.acceptForward forward with
      | some (inner, origin) => (relay.dispatch origin inner).relay
      | none => relay
  | .disconnected fp => (relay.endCalls fp).relay.unregister fp
  | .linked peers => { relay with peers }

/-- The call that an event creates, with its caller and its callee. -/
def createdCall (relay : SignalRelay ι κ) : SignalEvent ι κ → Option (CallId × Fingerprint × Fingerprint)
  | .signal client (.directCallOffer offer) =>
      if relay.offerAccepted offer then some (offer.callId, client.clientFp, offer.targetFingerprint)
      else none
  | .forwarded ⟨.directCallOffer offer, origin⟩ =>
      if origin ≠ relay.tlsFp ∧ relay.hub.isOnline offer.targetFingerprint then
        some (offer.callId, offer.callerFingerprint, offer.targetFingerprint)
      else none
  | _ => none

/-- The event creates a call with the id of a call between `caller` and
`callee`, but not between these two. -/
def Overwrites (callId : CallId) (caller callee : Fingerprint) (relay : SignalRelay ι κ)
    (e : SignalEvent ι κ) : Prop :=
  ∃ created ∈ relay.createdCall e, created.1 = callId ∧ created.2 ≠ (caller, callee)

instance (callId : CallId) (caller callee : Fingerprint) (relay : SignalRelay ι κ)
    (e : SignalEvent ι κ) : Decidable (Overwrites callId caller callee relay e) :=
  inferInstanceAs (Decidable (∃ created ∈ relay.createdCall e, _))

/-- The recorded parties of the call, if it is registered, are these two, and
nobody else is admitted to its room. -/
def KeepsParties (callId : CallId) (caller callee : Fingerprint) (relay : SignalRelay ι κ) : Prop :=
  (∀ c, relay.registry.get callId = some c → c.Between caller callee) ∧
    ∀ fp, relay.registry.authorized callId fp = true → fp = caller ∨ fp = callee

/-- What becomes of a registered call as long as no offer names it: it ends, or
it goes on between the same parties. -/
def GoesOn (before after : Option (DirectCall ι)) : Prop :=
  after = none ∨ ∃ c c', before = some c ∧ after = some c' ∧
    c'.Between c.callerFingerprint c.calleeFingerprint

omit [DecidableEq ι] in
theorem GoesOn.refl (before : Option (DirectCall ι)) : GoesOn before before := by
  cases before with
  | none => exact Or.inl rfl
  | some c => exact Or.inr ⟨c, c, rfl, rfl, rfl, rfl⟩

variable {relay : SignalRelay ι κ} {callId : CallId} {caller callee : Fingerprint}

omit [DecidableEq ι] in
theorem goesOn_modify (reg : CallRegistry ι) (id callId : CallId) {f : DirectCall ι → DirectCall ι}
    (hf : ∀ c, (f c).Between c.callerFingerprint c.calleeFingerprint) :
    GoesOn (reg.get callId) ((reg.modify id f).get callId) := by
  by_cases hid : callId = id
  · subst hid
    rw [CallRegistry.get_modify]
    cases reg.get callId with
    | none => exact Or.inl rfl
    | some c => exact Or.inr ⟨c, f c, rfl, rfl, hf c⟩
  · rw [CallRegistry.get_modify_ne hid]
    exact GoesOn.refl _

omit [DecidableEq ι] in
theorem goesOn_endCalls (reg : CallRegistry ι) (ids : List CallId) (callId : CallId) :
    GoesOn (reg.get callId) ((ids.foldl CallRegistry.endCall reg).get callId) := by
  rw [CallRegistry.get_foldl_endCall]
  split
  · exact Or.inl rfl
  · exact GoesOn.refl _

omit [DecidableEq ι] in
theorem get_created (reg : CallRegistry ι) (id callId : CallId) (a b : Fingerprint)
    {f : DirectCall ι → DirectCall ι}
    (hf : ∀ c, (f c).Between c.callerFingerprint c.calleeFingerprint) :
    if callId = id then ∃ c, ((reg.createCall id a b).modify id f).get callId = some c ∧ c.Between a b
    else ((reg.createCall id a b).modify id f).get callId = reg.get callId := by
  rw [CallRegistry.get_createCall_modify]
  split
  · exact ⟨_, rfl, hf _⟩
  · rfl

/-- Accepting a call does not touch its parties. -/
theorem goesOn_answer (client : SignalPeer) (answer : DirectCallAnswer) (callId : CallId) :
    GoesOn (relay.registry.get callId)
      ((relay.handleAnswer client answer).relay.registry.get callId) := by
  rw [handleAnswer]
  split
  · exact GoesOn.refl _
  · split
    · exact goesOn_endCalls relay.registry [answer.callId] callId
    · exact goesOn_modify _ _ _ fun c => ⟨c.setActive_callerFingerprint _ _,
        c.setActive_calleeFingerprint _ _⟩

omit [DecidableEq ι] in
theorem handleOffer_registry (client : SignalPeer) (offer : DirectCallOffer) :
    (relay.handleOffer client offer).relay.registry =
      if relay.offerAccepted offer then
        (relay.registry.createCall offer.callId client.clientFp
          offer.targetFingerprint).modify offer.callId (·.setCaller offer)
      else relay.registry := by
  simp only [handleOffer, offerAccepted, Bool.or_eq_true, decide_eq_true_eq]
  by_cases honline : relay.hub.isOnline offer.targetFingerprint = true
  · simp only [if_pos honline, if_pos (Or.inl honline)]
  · by_cases hpeers : relay.broadcastSignal (.directCallOffer offer) ≠ []
    · simp only [if_neg honline, if_pos hpeers, if_pos (Or.inr hpeers)]
    · simp only [if_neg honline, if_neg hpeers, if_neg (not_or.mpr ⟨honline, hpeers⟩)]

omit [DecidableEq ι] in
/-- An offer creates the call it names and no other. -/
theorem call_of_offer {reg reg' : CallRegistry ι} {created : Option (CallId × Fingerprint × Fingerprint)}
    (accepted : Prop) [Decidable accepted] (id : CallId) (a b : Fingerprint)
    (f : DirectCall ι → DirectCall ι)
    (hf : ∀ c, (f c).Between c.callerFingerprint c.calleeFingerprint)
    (hcreated : created = if accepted then some (id, a, b) else none)
    (hreg : reg' = if accepted then (reg.createCall id a b).modify id f else reg) (callId : CallId) :
    (∃ a b c, created = some (callId, a, b) ∧ reg'.get callId = some c ∧ c.Between a b) ∨
    (∀ a b, created ≠ some (callId, a, b)) ∧ GoesOn (reg.get callId) (reg'.get callId) := by
  subst hcreated hreg
  by_cases hacc : accepted
  · simp only [if_pos hacc]
    have hget := get_created reg id callId a b hf
    by_cases hid : callId = id
    · subst hid
      rw [if_pos rfl] at hget
      obtain ⟨c, hc, hbetween⟩ := hget
      exact Or.inl ⟨a, b, c, rfl, hc, hbetween⟩
    · rw [if_neg hid] at hget
      refine Or.inr ⟨fun a' b' heq => hid (Prod.mk.inj (Option.some.inj heq)).1.symm, ?_⟩
      rw [hget]
      exact GoesOn.refl _
  · simp only [if_neg hacc]
    exact Or.inr ⟨fun _ _ heq => absurd heq.symm (Option.some_ne_none _), GoesOn.refl _⟩

omit [DecidableEq ι] in
/-- Forwarded signals other than offers do not touch the parties either. -/
theorem goesOn_dispatch (origin : ι) {msg : CallSignal} (hmsg : ∀ offer, msg ≠ .directCallOffer offer)
    (callId : CallId) :
    GoesOn (relay.registry.get callId) ((relay.dispatch origin msg).relay.registry.get callId) := by
  cases msg with
  | directCallOffer offer => exact absurd rfl (hmsg offer)
  | directCallAnswer answer =>
      rw [dispatch]
      split
      · exact GoesOn.refl _
      · split
        · exact goesOn_endCalls relay.registry [answer.callId] callId
        · exact goesOn_modify _ _ _ fun c => ⟨c.setActive_callerFingerprint _ _,
            c.setActive_calleeFingerprint _ _⟩
  | callRinging id =>
      rw [dispatch]
      split
      · exact GoesOn.refl _
      · exact GoesOn.refl _
  | inCall kind id rest =>
      cases kind with
      | mediaPathReport =>
          rw [dispatch]
          split
          · exact GoesOn.refl _
          · exact GoesOn.refl _
      | _ => exact GoesOn.refl _
  | _ => exact GoesOn.refl _

/-- One event: it creates the call, or the call goes on as before. -/
theorem step_call (relay : SignalRelay ι κ) (e : SignalEvent ι κ) (callId : CallId) :
    (∃ a b c, relay.createdCall e = some (callId, a, b) ∧
      (relay.step e).registry.get callId = some c ∧ c.Between a b) ∨
    (∀ a b, relay.createdCall e ≠ some (callId, a, b)) ∧
      GoesOn (relay.registry.get callId) ((relay.step e).registry.get callId) := by
  have hsame : ∀ a b, (none : Option (CallId × Fingerprint × Fingerprint)) ≠ some (callId, a, b) :=
    fun _ _ h => absurd h.symm (Option.some_ne_none _)
  cases e with
  | connected fp transport name => exact Or.inr ⟨hsame, GoesOn.refl _⟩
  | signal client msg =>
      cases msg with
      | directCallOffer offer =>
          exact call_of_offer (relay.offerAccepted offer = true) offer.callId client.clientFp
            offer.targetFingerprint (·.setCaller offer) (fun c => ⟨rfl, rfl⟩) rfl
            (handleOffer_registry client offer) callId
      | directCallAnswer answer => exact Or.inr ⟨hsame, goesOn_answer client answer callId⟩
      | hangup reason id => exact Or.inr ⟨hsame, goesOn_endCalls _ _ callId⟩
      | inCall kind id rest =>
          refine Or.inr ⟨hsame, ?_⟩
          simp only [step, handleClientSignal_inCall, handleInCall]
          split
          · exact GoesOn.refl _
          · exact GoesOn.refl _
      | callSetup setup => exact Or.inr ⟨hsame, GoesOn.refl _⟩
      | callRinging id => exact Or.inr ⟨hsame, GoesOn.refl _⟩
      | ping ts => exact Or.inr ⟨hsame, GoesOn.refl _⟩
      | pong ts => exact Or.inr ⟨hsame, GoesOn.refl _⟩
      | reflect => exact Or.inr ⟨hsame, GoesOn.refl _⟩
      | reflectResponse addr => exact Or.inr ⟨hsame, GoesOn.refl _⟩
      | other rest => exact Or.inr ⟨hsame, GoesOn.refl _⟩
  | forwarded forward =>
      obtain ⟨inner, origin⟩ := forward
      by_cases hown : origin = relay.tlsFp
      · have hstep : relay.step (.forwarded ⟨inner, origin⟩) = relay := by
          simp only [step, acceptForward, if_pos hown]
        rw [hstep]
        refine Or.inr ⟨fun a b => ?_, GoesOn.refl _⟩
        cases inner with
        | directCallOffer offer =>
            simp only [createdCall, hown, ne_eq, not_true_eq_false, false_and, if_false]
            exact hsame a b
        | _ => exact hsame a b
      · have hstep : relay.step (.forwarded ⟨inner, origin⟩) = (relay.dispatch origin inner).relay := by
          simp only [step, acceptForward, if_neg hown]
        rw [hstep]
        cases inner with
        | directCallOffer offer =>
            refine call_of_offer (relay.hub.isOnline offer.targetFingerprint = true) offer.callId
              offer.callerFingerprint offer.targetFingerprint
              (fun c => (c.setCaller offer).setPeerRelayFp (some origin)) (fun c => ⟨rfl, rfl⟩)
              ?_ ?_ callId
            · simp only [createdCall, ne_eq, hown, not_false_eq_true, true_and]
            · rw [dispatch]
              split
              · rfl
              · rfl
        | _ => exact Or.inr ⟨hsame, goesOn_dispatch origin (fun _ h => CallSignal.noConfusion h) callId⟩
  | disconnected fp => exact Or.inr ⟨hsame, goesOn_endCalls _ _ callId⟩
  | linked peers => exact Or.inr ⟨hsame, GoesOn.refl _⟩

omit [DecidableEq ι] in
theorem keepsParties_iff : KeepsParties callId caller callee relay ↔
    ∀ c, relay.registry.get callId = some c → c.Between caller callee := by
  constructor
  · exact And.left
  · intro h
    refine ⟨h, fun fp hauth => ?_⟩
    obtain ⟨c, hc, hparty⟩ := CallRegistry.authorized_iff.mp hauth
    obtain ⟨hcaller, hcallee⟩ := h c hc
    rcases hparty with hfp | hfp
    · exact Or.inl (hfp.symm.trans hcaller)
    · exact Or.inr (hfp.symm.trans hcallee)

/-- An event keeps the parties of a call exactly if it does not overwrite it. -/
theorem keepsParties_step (h : KeepsParties callId caller callee relay) (e : SignalEvent ι κ) :
    KeepsParties callId caller callee (relay.step e) ↔ ¬ Overwrites callId caller callee relay e := by
  rw [keepsParties_iff] at h ⊢
  rcases step_call relay e callId with ⟨a, b, c, hcreated, hget, hbetween⟩ | ⟨hnot, hgoes⟩
  · constructor
    · rintro hkeep ⟨created, hmem, -, hother⟩
      obtain rfl := Option.some.inj (hcreated.symm.trans hmem)
      obtain ⟨hcaller, hcallee⟩ := hkeep c hget
      exact hother (Prod.ext (hbetween.1.symm.trans hcaller) (hbetween.2.symm.trans hcallee))
    · intro hover c' hget'
      obtain rfl := Option.some.inj (hget.symm.trans hget')
      by_contra hne
      refine hover ⟨_, hcreated, rfl, fun heq => hne ?_⟩
      exact ⟨hbetween.1.trans (Prod.mk.inj heq).1, hbetween.2.trans (Prod.mk.inj heq).2⟩
  · refine ⟨?_, fun _ c' hget' => ?_⟩
    · rintro - ⟨⟨id, a, b⟩, hmem, rfl, -⟩
      exact hnot a b hmem
    · rcases hgoes with hnone | ⟨c, c'', hbefore, hafter, hsame⟩
      · rw [hnone] at hget'
        exact absurd hget'.symm (Option.some_ne_none c')
      · obtain rfl := Option.some.inj (hafter.symm.trans hget')
        obtain ⟨hcaller, hcallee⟩ := h c hbefore
        exact ⟨hsame.1.trans hcaller, hsame.2.trans hcallee⟩

/-- While a call stays registered, its parties are kept throughout a run exactly
if no offer in it reuses the call's id for other parties. -/
theorem parties_kept_iff {c : DirectCall ι} (hc : relay.registry.get callId = some c)
    (hbetween : c.Between caller callee) {es : List (SignalEvent ι κ)}
    (hlive : Throughout step (fun r => (r.registry.get callId).isSome) relay es) :
    Throughout step (KeepsParties callId caller callee) relay es ↔
      EachStep step (fun r e => ¬ Overwrites callId caller callee r e) relay es := by
  refine throughout_iff_eachStep_of_throughout (fun _ e _ _ h => keepsParties_step h e) hlive ?_
  rw [keepsParties_iff]
  intro c' hc'
  obtain rfl := Option.some.inj (hc.symm.trans hc')
  exact hbetween

end SignalRelay

/-! ## A third client that offers a call under a known id -/
namespace ThirdClient
open SignalRelay

def offer (caller target : Fingerprint) : DirectCallOffer := ⟨caller, target, [1], none, [], none, []⟩

def answer (mode : CallAcceptMode) : DirectCallAnswer := ⟨[1], mode, none, [], none, []⟩

/-- Alice has called Bob under the id 1; Mallory and Eve are online. -/
def relay : SignalRelay Unit (Fin 4) :=
  { hub := (((AList.singleton "alice" ⟨"alice", none, 0⟩).insert "bob" ⟨"bob", none, 1⟩).insert
      "mallory" ⟨"mallory", none, 2⟩).insert "eve" ⟨"eve", none, 3⟩
    registry := CallRegistry.createCall ∅ [1] "alice" "bob"
    peers := none
    tlsFp := ()
    advertisedAddr := "relay" }

/-- Bob accepts and Mallory offers a call under another id. -/
def orderlyRun : List (SignalEvent Unit (Fin 4)) :=
  [.signal ⟨"bob", ""⟩ (.directCallAnswer (answer .acceptGeneric)),
    .signal ⟨"mallory", ""⟩ (.directCallOffer { offer "mallory" "eve" with callId := [2] })]

theorem parties_kept_iff_orderly :
    Throughout step (KeepsParties [1] "alice" "bob") relay orderlyRun :=
  (parties_kept_iff (c := CallRegistry.pendingCall "alice" "bob") (by decide) (by decide)
    (by decide)).mpr (by decide)

/-- Mallory offers Eve a call under Alice's id and is admitted to its room. -/
theorem offer_takes_over :
    Throughout step (fun r => (r.registry.get [1]).isSome) relay
        [.signal ⟨"mallory", ""⟩ (.directCallOffer (offer "mallory" "eve"))] ∧
      ¬ Throughout step (KeepsParties [1] "alice" "bob") relay
        [.signal ⟨"mallory", ""⟩ (.directCallOffer (offer "mallory" "eve"))] := by
  refine ⟨by decide, fun h => ?_⟩
  exact absurd (h.last.2 "mallory" (by decide)) (by decide)

end ThirdClient
end Wzp.Relay
