import Mathlib.Data.Sym.Sym2
import Wzp.Relay.Authentication

/-!
# Who shares a session key

Both sides of the handshake in a network that is in the hands of an attacker. The key of a
session is derived from its own ephemeral secret and the number it was sent, and X25519 with
HKDF is a parameter. What is signed is the ephemeral key alone: not for whom it is, nor what it
answers. And no side looks whether the other one's number contributes to the key.
-/
namespace Wzp.Relay.Handshake
open Proto Symbolic Runs

/-! ## The client's end of the handshake -/

inductive HandshakeError where
  | connectionClosed
  | protocolVersionMismatch (serverSupported : List UInt8)
  | unexpectedSignal (expected : String)
  | signatureVerificationFailed
  deriving DecidableEq

structure HandshakeResult where
  session : ℕ × ℕ
  videoCodec : Option CodecId

variable {K : Type} [DecidableEq K]

/-- What the client makes of the message after its offer. Any identity may answer. -/
def finishHandshake (ephemeralPub : ℕ) : Option (Signal K) → Except HandshakeError HandshakeResult
  | some (.callAnswer answer) =>
      if !verify answer.identityPub (answerData answer.ephemeralPub) answer.signature then
        .error .signatureVerificationFailed
      else .ok ⟨(ephemeralPub, answer.ephemeralPub), answer.videoCodec⟩
  | some (.hangup serverSupported) => .error (.protocolVersionMismatch serverSupported)
  | some _ => .error (.unexpectedSignal "CallAnswer")
  | none => .error .connectionClosed

/-! ## The network -/

inductive Role where
  | caller
  | callee
  deriving DecidableEq

/-- A session that an honest party has derived, with the identity it was shown. -/
structure Session (K : Type) where
  role : Role
  self : K
  peer : K
  keys : ℕ × ℕ

/-- `deriveSession` takes the own ephemeral, of which only this side has the secret, and the one
of the peer. -/
def Session.key {Key : Type*} (deriveSession : ℕ → ℕ → Key) (s : Session K) : Key :=
  deriveSession s.keys.1 s.keys.2

/-- The session `t` is the end that `s` was shown. -/
def Session.Shown (s t : Session K) : Prop := s.peer = t.self ∧ s.keys.2 = t.keys.1

/-- What X25519 is relied on for. The key of two secrets that the attacker does not hold is made
with one of these two: with another secret, no number that a party can send leads to it. -/
def Separates {Key : Type*} (held : ℕ → Prop) (deriveSession : ℕ → ℕ → Key) : Prop :=
  ∀ a b, ¬ held a → ¬ held b → ∀ c x, deriveSession a b = deriveSession c x → c = a ∨ c = b

def callerSession (client : K) (e : ℕ) (message : Option (Signal K)) : Option (Session K) :=
  match finishHandshake e message, message with
  | .ok result, some (.callAnswer answer) =>
      some ⟨.caller, client, answer.identityPub, result.session⟩
  | _, _ => none

def calleeSession (relay : K) (e : ℕ) (message : Option (Signal K)) : Option (Session K) :=
  match (acceptHandshake relay e message).1, message with
  | .ok accepted, some (.callOffer offer) =>
      some ⟨.callee, relay, offer.identityPub, accepted.session⟩
  | _, _ => none

structure KeyNet (K : Type) where
  sent : List (Signal K)
  /-- The ephemeral secrets of honest parties. -/
  drawn : List ℕ
  offered : List (K × ℕ)
  /-- The clients that have not got an answer yet. -/
  waiting : List (K × ℕ)
  sessions : List (Session K)

inductive KeyEvent (K : Type) where
  | offer (client : K) (e : ℕ) (callerAlias : Option String) (videoCodecs : List CodecId)
  | answer (relay : K) (e : ℕ) (message : Option (Signal K))
  | finish (client : K) (e : ℕ) (message : Option (Signal K))

namespace KeyNet

def new : KeyNet K := ⟨[], [], [], [], []⟩

-- the signing keys and the ephemeral secrets of the attacker
variable (bad : K → Prop) [DecidablePred bad] (held : ℕ → Prop)
variable {Key : Type*} (deriveSession : ℕ → ℕ → Key)

def step (w : KeyNet K) : KeyEvent K → KeyNet K
  | .offer client e callerAlias videoCodecs =>
      if bad client then w
      else
        { w with
          sent := w.sent ++ [.callOffer (performHandshake client e callerAlias videoCodecs)]
          drawn := w.drawn ++ [e]
          offered := w.offered ++ [(client, e)]
          waiting := w.waiting ++ [(client, e)] }
  | .answer relay e message =>
      if bad relay then w
      else
        { w with
          sent := w.sent ++ (acceptHandshake relay e message).2
          drawn := w.drawn ++ [e]
          sessions := w.sessions ++ (calleeSession relay e message).toList }
  | .finish client e message =>
      if w.waiting.contains (client, e) then
        { w with
          waiting := w.waiting.erase (client, e)
          sessions := w.sessions ++ (callerSession client e message).toList }
      else w

/-- Honest parties draw fresh secrets, and the attacker sends what it can put together. -/
def Possible (w : KeyNet K) : KeyEvent K → Prop
  | .offer _ e _ _ => e ∉ w.drawn ∧ ¬ held e
  | .answer _ e message => e ∉ w.drawn ∧ ¬ held e ∧
      ∀ signal ∈ message, Deducible bad (w.sent.map Signal.toTerm) signal.toTerm
  | .finish _ _ message =>
      ∀ signal ∈ message, Deducible bad (w.sent.map Signal.toTerm) signal.toTerm

/-- The honest identity that a session was shown drew the secret behind its other number, in
the other role, and no secret of the attacker's leads to the key. Of two sessions with one key
each was shown the other or an identity of the attacker's. -/
structure Agreed (w : KeyNet K) : Prop where
  secret : ∀ s ∈ w.sessions, ¬ bad s.peer →
    ¬ held s.keys.2 ∧ ∀ c, held c → ∀ x, s.key deriveSession ≠ deriveSession c x
  answered : ∀ s ∈ w.sessions, s.role = .caller → ¬ bad s.peer →
    ∃ t ∈ w.sessions, t.role = .callee ∧ t.self = s.peer ∧ t.keys.1 = s.keys.2
  called : ∀ s ∈ w.sessions, s.role = .callee → ¬ bad s.peer → (s.peer, s.keys.2) ∈ w.offered
  shared : w.sessions.Pairwise fun s t => s.key deriveSession = t.key deriveSession →
    (s.Shown t ∨ bad s.peer) ∧ (t.Shown s ∨ bad t.peer) ∧
      (s.role ≠ t.role ∨ bad s.peer ∧ bad t.peer)

/-- What is known of the signatures and the secrets. -/
structure Sound (w : KeyNet K) : Prop where
  drawn : ∀ e ∈ w.drawn, ¬ held e
  offered : ∀ o ∈ w.offered, ¬ bad o.1 ∧ o.2 ∈ w.drawn
  offered_inj : ∀ o ∈ w.offered, ∀ o' ∈ w.offered, o.2 = o'.2 → o = o'
  waiting : ∀ o ∈ w.waiting, o ∈ w.offered
  waiting_nodup : w.waiting.Nodup
  offers : ∀ signal ∈ w.sent, ∀ k, ¬ bad k → ∀ e,
    (Term.sign k (offerData e)).Shows signal.toTerm → (k, e) ∈ w.offered
  answers : ∀ signal ∈ w.sent, ∀ k, ¬ bad k → ∀ e,
    (Term.sign k (answerData e)).Shows signal.toTerm →
      ∃ s ∈ w.sessions, s.role = .callee ∧ s.self = k ∧ s.keys.1 = e
  own : ∀ s ∈ w.sessions, s.keys.1 ∈ w.drawn
  caller : ∀ s ∈ w.sessions, s.role = .caller →
    (s.self, s.keys.1) ∈ w.offered ∧ (s.self, s.keys.1) ∉ w.waiting ∧
      (¬ bad s.peer →
        ∃ t ∈ w.sessions, t.role = .callee ∧ t.self = s.peer ∧ t.keys.1 = s.keys.2)
  callee : ∀ s ∈ w.sessions, s.role = .callee →
    (∀ o ∈ w.offered, o.2 ≠ s.keys.1) ∧ (¬ bad s.peer → (s.peer, s.keys.2) ∈ w.offered)
  distinct : (w.sessions.map fun s => s.keys.1).Nodup

variable {bad held deriveSession} {w : KeyNet K}

/-! ## From what is known to what is agreed -/

omit [DecidableEq K] [DecidablePred bad] in
theorem Sound.eq_of_own (h : Sound bad held w) {s t : Session K} (hs : s ∈ w.sessions)
    (ht : t ∈ w.sessions) (heq : s.keys.1 = t.keys.1) : s = t :=
  List.inj_on_of_nodup_map h.distinct hs ht heq

omit [DecidableEq K] [DecidablePred bad] in
/-- An honest peer that drew the other number is the session at the other end. -/
theorem Sound.peer_eq (h : Sound bad held w) {s t : Session K} (hs : s ∈ w.sessions)
    (ht : t ∈ w.sessions) (hkeys : s.keys.2 = t.keys.1) (hpeer : ¬ bad s.peer) :
    s.peer = t.self ∧ s.role ≠ t.role := by
  cases hrole : s.role with
  | caller =>
      obtain ⟨t', ht', hrole', hself, hown⟩ := (h.caller s hs hrole).2.2 hpeer
      obtain rfl := h.eq_of_own ht' ht (hown.trans hkeys)
      exact ⟨hself.symm, by rw [hrole']; exact nofun⟩
  | callee =>
      have hoffered := (h.callee s hs hrole).2 hpeer
      cases hrole' : t.role with
      | caller =>
          have hsame := h.offered_inj _ hoffered _ (h.caller t ht hrole').1 hkeys
          exact ⟨congrArg Prod.fst hsame, nofun⟩
      | callee => exact absurd hkeys ((h.callee t ht hrole').1 _ hoffered)

omit [DecidableEq K] [DecidablePred bad] in
theorem Sound.not_held (h : Sound bad held w) {s : Session K} (hs : s ∈ w.sessions)
    (hpeer : ¬ bad s.peer) : ¬ held s.keys.1 ∧ ¬ held s.keys.2 := by
  refine ⟨h.drawn _ (h.own s hs), ?_⟩
  cases hrole : s.role with
  | caller =>
      obtain ⟨t, ht, -, -, hown⟩ := (h.caller s hs hrole).2.2 hpeer
      rw [← hown]
      exact h.drawn _ (h.own t ht)
  | callee => exact h.drawn _ (h.offered _ ((h.callee s hs hrole).2 hpeer)).2

omit [DecidableEq K] [DecidablePred bad] in
/-- Who else has the key of a session that was shown an honest identity is at its other end. -/
theorem Sound.shown (h : Sound bad held w) (hderive : Separates held deriveSession)
    {s t : Session K} (hs : s ∈ w.sessions) (ht : t ∈ w.sessions) (hne : s.keys.1 ≠ t.keys.1)
    (hkey : s.key deriveSession = t.key deriveSession) (hpeer : ¬ bad s.peer) :
    s.Shown t ∧ s.role ≠ t.role := by
  obtain ⟨hown, hother⟩ := h.not_held hs hpeer
  rcases hderive _ _ hown hother _ _ hkey with heq | heq
  · exact absurd heq.symm hne
  · obtain ⟨hself, hrole⟩ := h.peer_eq hs ht heq.symm hpeer
    exact ⟨⟨hself, heq.symm⟩, hrole⟩

omit [DecidableEq K] [DecidablePred bad] in
theorem Sound.agreed (h : Sound bad held w) (hderive : Separates held deriveSession) :
    Agreed bad held deriveSession w := by
  refine ⟨?_, fun s hs hrole => (h.caller s hs hrole).2.2,
    fun s hs hrole => (h.callee s hs hrole).2, ?_⟩
  · intro s hs hpeer
    obtain ⟨hown, hother⟩ := h.not_held hs hpeer
    refine ⟨hother, fun c hc x hkey => ?_⟩
    rcases hderive _ _ hown hother _ _ hkey with rfl | rfl
    · exact hown hc
    · exact hother hc
  · refine (List.pairwise_map.mp h.distinct).imp_of_mem fun {s t} hs ht hne hkey => ?_
    have hst := h.shown hderive hs ht hne hkey
    have hts := h.shown hderive ht hs hne.symm hkey.symm
    by_cases hs' : bad s.peer
    · by_cases ht' : bad t.peer
      · exact ⟨Or.inr hs', Or.inr ht', Or.inr ⟨hs', ht'⟩⟩
      · exact ⟨Or.inr hs', Or.inl (hts ht').1, Or.inl (hts ht').2.symm⟩
    · refine ⟨Or.inl (hst hs').1, ?_, Or.inl (hst hs').2⟩
      by_cases ht' : bad t.peer
      · exact Or.inr ht'
      · exact Or.inl (hts ht').1

/-! ## One step -/

omit [DecidableEq K] in
theorem answerData_injective {e e' : ℕ} (h : (answerData e : Text K) = answerData e') : e = e' := by
  cases h
  rfl

omit [DecidableEq K] in
theorem offerData_ne_answerData (e e' : ℕ) : (offerData e : Text K) ≠ answerData e' := by
  intro h
  injection h with _ hlabel
  injection hlabel with htext
  injection htext with htext
  exact absurd htext (by decide)

theorem callerSession_some {client : K} {e : ℕ} {message : Option (Signal K)} {s : Session K}
    (h : callerSession client e message = some s) :
    ∃ answer, message = some (.callAnswer answer) ∧
      answer.signature = .sign answer.identityPub (answerData answer.ephemeralPub) ∧
      s = ⟨.caller, client, answer.identityPub, (e, answer.ephemeralPub)⟩ := by
  cases message with
  | none => cases h
  | some signal =>
      cases signal with
      | callAnswer answer =>
          by_cases hverify :
              verify answer.identityPub (answerData answer.ephemeralPub) answer.signature = true
          · simp only [callerSession, finishHandshake, hverify] at h
            exact ⟨answer, rfl, World.verify_iff.mp hverify, (Option.some.inj h).symm⟩
          · simp only [callerSession, finishHandshake, hverify] at h
            cases h
      | _ => cases h

theorem calleeSession_some {relay : K} {e : ℕ} {message : Option (Signal K)} {s : Session K}
    (h : calleeSession relay e message = some s) :
    ∃ offer, message = some (.callOffer offer) ∧
      offer.signature = .sign offer.identityPub (offerData offer.ephemeralPub) ∧
      s = ⟨.callee, relay, offer.identityPub, (e, offer.ephemeralPub)⟩ := by
  cases message with
  | none => cases h
  | some signal =>
      cases signal with
      | callOffer offer =>
          by_cases hversion : offer.protocolVersion = 2
          · by_cases hverify :
                verify offer.identityPub (offerData offer.ephemeralPub) offer.signature = true
            · simp only [calleeSession, acceptHandshake, hversion, hverify] at h
              exact ⟨offer, rfl, World.verify_iff.mp hverify, (Option.some.inj h).symm⟩
            · simp only [calleeSession, acceptHandshake, hversion, hverify] at h
              cases h
          · simp only [calleeSession, acceptHandshake, ne_eq, hversion, not_false_eq_true,
              if_true] at h
            cases h
      | _ => cases h

omit [DecidableEq K] in
/-- A key, a number and a signature show the signature alone. -/
theorem shows_signed {k k' : K} {data data' : Text K} {identity : Datum K} {e : ℕ} :
    (Term.sign k data).Shows (.pair (.atom identity)
      (.pair (.atom (.ephemeral e)) (.sign k' data'))) ↔ k = k' ∧ data = data' := by
  constructor
  · rintro (h | h | h | h | h)
    · cases h
    · cases h
    · cases h
    · cases h
    · exact Term.sign.inj h
  · rintro ⟨rfl, rfl⟩
    exact Term.Shows.of_pair_right (Term.Shows.of_pair_right rfl)

/-- What a relay sends shows its own signature, and that only with a session. -/
theorem acceptHandshake_shows {relay : K} {e : ℕ} {message : Option (Signal K)} {signal : Signal K}
    (hmem : signal ∈ (acceptHandshake relay e message).2) {k : K} {data : Text K}
    (hshows : (Term.sign k data).Shows signal.toTerm) :
    k = relay ∧ data = answerData e ∧ ∃ s, calleeSession relay e message = some s := by
  cases message with
  | none => exact absurd hmem List.not_mem_nil
  | some first =>
      cases first with
      | callOffer offer =>
          by_cases hversion : offer.protocolVersion = 2
          · by_cases hverify :
                verify offer.identityPub (offerData offer.ephemeralPub) offer.signature = true
            · simp only [acceptHandshake, hversion, hverify, ne_eq, not_true_eq_false,
                Bool.not_true, Bool.false_eq_true, if_false, List.mem_singleton] at hmem
              subst hmem
              obtain ⟨rfl, rfl⟩ := shows_signed.mp hshows
              refine ⟨rfl, rfl, ?_⟩
              simp only [calleeSession, acceptHandshake, hversion, hverify]
              exact ⟨_, rfl⟩
            · simp only [acceptHandshake, hversion, hverify, ne_eq, not_true_eq_false,
                Bool.not_false, if_true, if_false, List.not_mem_nil] at hmem
          · simp only [acceptHandshake, ne_eq, hversion, not_false_eq_true, if_true,
              List.mem_singleton] at hmem
            subst hmem
            cases hshows
      | _ => exact absurd hmem List.not_mem_nil

omit [DecidableEq K] [DecidablePred bad] in
/-- A signature of an honest party that the attacker shows has been sent. -/
theorem shown_sent {k : K} (hk : ¬ bad k) {data : Text K} {signal : Signal K}
    (hdeduced : Deducible bad (w.sent.map Signal.toTerm) signal.toTerm)
    (hshows : (Term.sign k data).Shows signal.toTerm) :
    ∃ sent ∈ w.sent, (Term.sign k data).Shows sent.toTerm := by
  obtain ⟨t, hmem, ht⟩ := hdeduced.sign_shown hk hshows
  obtain ⟨sent, hsent, rfl⟩ := List.mem_map.mp hmem
  exact ⟨sent, hsent, ht⟩

omit [DecidableEq K] [DecidablePred bad] in
theorem Sound.new : Sound bad held (new : KeyNet K) := by
  refine ⟨?_, ?_, ?_, ?_, List.nodup_nil, ?_, ?_, ?_, ?_, ?_, List.nodup_nil⟩ <;>
    exact fun _ h => absurd h List.not_mem_nil

omit [DecidableEq K] [DecidablePred bad] in
theorem Sound.offer (h : Sound bad held w) {client : K} {e : ℕ} {callerAlias : Option String}
    {videoCodecs : List CodecId} (hclient : ¬ bad client) (hfresh : e ∉ w.drawn) (he : ¬ held e) :
    Sound bad held { w with
      sent := w.sent ++ [.callOffer (performHandshake client e callerAlias videoCodecs)]
      drawn := w.drawn ++ [e]
      offered := w.offered ++ [(client, e)]
      waiting := w.waiting ++ [(client, e)] } := by
  have hnew : ∀ o ∈ w.offered, o.2 ≠ e := fun o ho heq => hfresh (heq ▸ (h.offered o ho).2)
  refine ⟨?_, ?_, ?_, ?_, ?_, ?_, ?_, ?_, ?_, ?_, h.distinct⟩
  · intro e' he'
    rcases List.mem_append.mp he' with hold | hnew'
    · exact h.drawn e' hold
    · rw [List.mem_singleton.mp hnew']
      exact he
  · intro o ho
    rcases List.mem_append.mp ho with hold | hnew'
    · exact ⟨(h.offered o hold).1, List.mem_append_left _ (h.offered o hold).2⟩
    · rw [List.mem_singleton.mp hnew']
      exact ⟨hclient, List.mem_append_right _ List.mem_cons_self⟩
  · intro o ho o' ho' heq
    rcases List.mem_append.mp ho with hold | hnew' <;> rcases List.mem_append.mp ho' with hold' | hnew''
    · exact h.offered_inj o hold o' hold' heq
    · rw [List.mem_singleton.mp hnew''] at heq
      exact absurd heq (hnew o hold)
    · rw [List.mem_singleton.mp hnew'] at heq
      exact absurd heq.symm (hnew o' hold')
    · rw [List.mem_singleton.mp hnew', List.mem_singleton.mp hnew'']
  · intro o ho
    rcases List.mem_append.mp ho with hold | hnew'
    · exact List.mem_append_left _ (h.waiting o hold)
    · exact List.mem_append_right _ hnew'
  · refine List.nodup_append.mpr ⟨h.waiting_nodup, List.nodup_singleton _, fun o ho o' ho' => ?_⟩
    rw [List.mem_singleton.mp ho']
    rintro rfl
    exact hnew _ (h.waiting _ ho) rfl
  · intro signal hsignal k hk e' hshows
    rcases List.mem_append.mp hsignal with hold | hnew'
    · exact List.mem_append_left _ (h.offers signal hold k hk e' hshows)
    · rw [List.mem_singleton.mp hnew'] at hshows
      obtain ⟨rfl, hdata⟩ := shows_signed.mp hshows
      rw [World.offerData_injective hdata]
      exact List.mem_append_right _ List.mem_cons_self
  · intro signal hsignal k hk e' hshows
    rcases List.mem_append.mp hsignal with hold | hnew'
    · exact h.answers signal hold k hk e' hshows
    · rw [List.mem_singleton.mp hnew'] at hshows
      exact absurd (shows_signed.mp hshows).2.symm (offerData_ne_answerData e e')
  · exact fun s hs => List.mem_append_left _ (h.own s hs)
  · intro s hs hrole
    obtain ⟨hoffered, hwaiting, hpeer⟩ := h.caller s hs hrole
    refine ⟨List.mem_append_left _ hoffered, fun hin => ?_, hpeer⟩
    rcases List.mem_append.mp hin with hold | hnew'
    · exact hwaiting hold
    · exact hnew _ hoffered (congrArg Prod.snd (List.mem_singleton.mp hnew'))
  · intro s hs hrole
    obtain ⟨hown, hpeer⟩ := h.callee s hs hrole
    refine ⟨fun o ho heq => ?_, fun hbad => List.mem_append_left _ (hpeer hbad)⟩
    rcases List.mem_append.mp ho with hold | hnew'
    · exact hown o hold heq
    · rw [List.mem_singleton.mp hnew'] at heq
      have hin := h.own s hs
      rw [← heq] at hin
      exact hfresh hin

omit [DecidablePred bad] in
theorem Sound.answer (h : Sound bad held w) {relay : K} {e : ℕ} {message : Option (Signal K)}
    (hfresh : e ∉ w.drawn) (he : ¬ held e)
    (hmessage : ∀ signal ∈ message, Deducible bad (w.sent.map Signal.toTerm) signal.toTerm) :
    Sound bad held { w with
      sent := w.sent ++ (acceptHandshake relay e message).2
      drawn := w.drawn ++ [e]
      sessions := w.sessions ++ (calleeSession relay e message).toList } := by
  have hsession : ∀ s ∈ (calleeSession relay e message).toList,
      s.role = .callee ∧ s.self = relay ∧ s.keys.1 = e ∧
        (¬ bad s.peer → (s.peer, s.keys.2) ∈ w.offered) := by
    intro s hs
    obtain ⟨offer, rfl, hsignature, rfl⟩ := calleeSession_some (Option.mem_toList.mp hs)
    refine ⟨rfl, rfl, rfl, fun hpeer => ?_⟩
    have hshows : (Term.sign offer.identityPub (offerData offer.ephemeralPub)).Shows
        (Signal.callOffer offer).toTerm := by
      rw [Signal.toTerm, hsignature]
      exact shows_signed.mpr ⟨rfl, rfl⟩
    obtain ⟨sent, hsent, hsent'⟩ := shown_sent hpeer (hmessage _ rfl) hshows
    exact h.offers sent hsent _ hpeer _ hsent'
  have hnew : ∀ s ∈ w.sessions, s.keys.1 ≠ e := fun s hs heq => hfresh (heq ▸ h.own s hs)
  refine ⟨?_, ?_, h.offered_inj, h.waiting, h.waiting_nodup, ?_, ?_, ?_, ?_, ?_, ?_⟩
  · intro e' he'
    rcases List.mem_append.mp he' with hold | hnew'
    · exact h.drawn e' hold
    · rw [List.mem_singleton.mp hnew']
      exact he
  · exact fun o ho => ⟨(h.offered o ho).1, List.mem_append_left _ (h.offered o ho).2⟩
  · intro signal hsignal k hk e' hshows
    rcases List.mem_append.mp hsignal with hold | hreply
    · exact h.offers signal hold k hk e' hshows
    · exact absurd (acceptHandshake_shows hreply hshows).2.1 (offerData_ne_answerData e' e)
  · intro signal hsignal k hk e' hshows
    rcases List.mem_append.mp hsignal with hold | hreply
    · obtain ⟨s, hs, hsaid⟩ := h.answers signal hold k hk e' hshows
      exact ⟨s, List.mem_append_left _ hs, hsaid⟩
    · obtain ⟨rfl, hdata, s, hs⟩ := acceptHandshake_shows hreply hshows
      obtain ⟨hrole, hself, hown, -⟩ := hsession s (Option.mem_toList.mpr hs)
      exact ⟨s, List.mem_append_right _ (Option.mem_toList.mpr hs), hrole, hself,
        hown.trans (answerData_injective hdata).symm⟩
  · intro s hs
    rcases List.mem_append.mp hs with hold | hnew'
    · exact List.mem_append_left _ (h.own s hold)
    · rw [(hsession s hnew').2.2.1]
      exact List.mem_append_right _ List.mem_cons_self
  · intro s hs hrole
    rcases List.mem_append.mp hs with hold | hnew'
    · obtain ⟨hoffered, hwaiting, hpeer⟩ := h.caller s hold hrole
      refine ⟨hoffered, hwaiting, fun hbad => ?_⟩
      obtain ⟨t, ht, htold⟩ := hpeer hbad
      exact ⟨t, List.mem_append_left _ ht, htold⟩
    · rw [(hsession s hnew').1] at hrole
      cases hrole
  · intro s hs hrole
    rcases List.mem_append.mp hs with hold | hnew'
    · exact h.callee s hold hrole
    · obtain ⟨-, -, hown, hpeer⟩ := hsession s hnew'
      refine ⟨fun o ho heq => hfresh ?_, hpeer⟩
      rw [← hown, ← heq]
      exact (h.offered o ho).2
  · rw [List.map_append, List.nodup_append]
    refine ⟨h.distinct, ?_, fun e₁ he₁ e₂ he₂ => ?_⟩
    · cases calleeSession relay e message with
      | none => exact List.nodup_nil
      | some s => exact List.nodup_singleton _
    · obtain ⟨s, hs, rfl⟩ := List.mem_map.mp he₁
      obtain ⟨t, ht, rfl⟩ := List.mem_map.mp he₂
      rw [(hsession t ht).2.2.1]
      exact hnew s hs

omit [DecidablePred bad] in
theorem Sound.finish (h : Sound bad held w) {client : K} {e : ℕ} {message : Option (Signal K)}
    (hwaits : (client, e) ∈ w.waiting)
    (hmessage : ∀ signal ∈ message, Deducible bad (w.sent.map Signal.toTerm) signal.toTerm) :
    Sound bad held { w with
      waiting := w.waiting.erase (client, e)
      sessions := w.sessions ++ (callerSession client e message).toList } := by
  have hsession : ∀ s ∈ (callerSession client e message).toList,
      s.role = .caller ∧ s.self = client ∧ s.keys.1 = e ∧
        (¬ bad s.peer →
          ∃ t ∈ w.sessions, t.role = .callee ∧ t.self = s.peer ∧ t.keys.1 = s.keys.2) := by
    intro s hs
    obtain ⟨answer, rfl, hsignature, rfl⟩ := callerSession_some (Option.mem_toList.mp hs)
    refine ⟨rfl, rfl, rfl, fun hpeer => ?_⟩
    have hshows : (Term.sign answer.identityPub (answerData answer.ephemeralPub)).Shows
        (Signal.callAnswer answer).toTerm := by
      rw [Signal.toTerm, hsignature]
      exact shows_signed.mpr ⟨rfl, rfl⟩
    obtain ⟨sent, hsent, hsent'⟩ := shown_sent hpeer (hmessage _ rfl) hshows
    exact h.answers sent hsent _ hpeer _ hsent'
  have hoffered := h.waiting _ hwaits
  refine ⟨h.drawn, h.offered, h.offered_inj, ?_, h.waiting_nodup.erase _, h.offers, ?_, ?_, ?_, ?_, ?_⟩
  · exact fun o ho => h.waiting o (List.mem_of_mem_erase ho)
  · intro signal hsignal k hk e' hshows
    obtain ⟨s, hs, hsaid⟩ := h.answers signal hsignal k hk e' hshows
    exact ⟨s, List.mem_append_left _ hs, hsaid⟩
  · intro s hs
    rcases List.mem_append.mp hs with hold | hnew'
    · exact h.own s hold
    · rw [(hsession s hnew').2.2.1]
      exact (h.offered _ hoffered).2
  · intro s hs hrole
    rcases List.mem_append.mp hs with hold | hnew'
    · obtain ⟨hown, hwaiting, hpeer⟩ := h.caller s hold hrole
      refine ⟨hown, fun hin => hwaiting (List.mem_of_mem_erase hin), fun hbad => ?_⟩
      obtain ⟨t, ht, htold⟩ := hpeer hbad
      exact ⟨t, List.mem_append_left _ ht, htold⟩
    · obtain ⟨-, hself, hown, hpeer⟩ := hsession s hnew'
      rw [hself, hown]
      refine ⟨hoffered, h.waiting_nodup.not_mem_erase, fun hbad => ?_⟩
      obtain ⟨t, ht, htold⟩ := hpeer hbad
      exact ⟨t, List.mem_append_left _ ht, htold⟩
  · intro s hs hrole
    rcases List.mem_append.mp hs with hold | hnew'
    · exact h.callee s hold hrole
    · rw [(hsession s hnew').1] at hrole
      cases hrole
  · rw [List.map_append, List.nodup_append]
    refine ⟨h.distinct, ?_, fun e₁ he₁ e₂ he₂ => ?_⟩
    · cases callerSession client e message with
      | none => exact List.nodup_nil
      | some s => exact List.nodup_singleton _
    · obtain ⟨s, hs, rfl⟩ := List.mem_map.mp he₁
      obtain ⟨t, ht, rfl⟩ := List.mem_map.mp he₂
      rw [(hsession t ht).2.2.1]
      intro heq
      cases hrole : s.role with
      | caller =>
          obtain ⟨hown, hnot, -⟩ := h.caller s hs hrole
          have hsame := h.offered_inj _ hown _ hoffered heq
          exact hnot (hsame ▸ hwaits)
      | callee => exact (h.callee s hs hrole).1 _ hoffered heq.symm

/-! ## Whole runs -/

theorem Sound.step (h : Sound bad held w) {event : KeyEvent K} (hpossible : Possible bad held w event) :
    Sound bad held (step bad w event) := by
  cases event with
  | offer client e callerAlias videoCodecs =>
      rw [KeyNet.step]
      split
      · exact h
      · next hclient => exact h.offer hclient hpossible.1 hpossible.2
  | answer relay e message =>
      rw [KeyNet.step]
      split
      · exact h
      · exact h.answer hpossible.1 hpossible.2.1 hpossible.2.2
  | finish client e message =>
      rw [KeyNet.step]
      split
      · next hwaits => exact h.finish (List.contains_iff_mem.mp hwaits) hpossible
      · exact h

/-! ## What the handshake does not rule out -/

/-- The offer of a client, under an identity. -/
def offerAs (identity client : K) (e : ℕ) (callerAlias : Option String) (videoCodecs : List CodecId) :
    CallOffer K :=
  { performHandshake client e callerAlias videoCodecs with
    identityPub := identity
    signature := .sign identity (offerData e) }

def answerOf (relay : K) (e : ℕ) (videoCodecs : List CodecId) : CallAnswer K :=
  ⟨relay, e, .sign relay (answerData e), .good, videoCodecs.head?⟩

theorem acceptHandshake_offerAs (identity client relay : K) (e e' : ℕ) (callerAlias : Option String)
    (videoCodecs : List CodecId) :
    let message := some (.callOffer (offerAs identity client e callerAlias videoCodecs))
    calleeSession relay e' message = some ⟨.callee, relay, identity, (e', e)⟩ ∧
      (acceptHandshake relay e' message).2 = [.callAnswer (answerOf relay e' videoCodecs)] := by
  have hverify : verify identity (offerData e) (.sign identity (offerData e)) = true :=
    World.verify_iff.mpr rfl
  simp [calleeSession, acceptHandshake, offerAs, performHandshake, hverify, answerOf, chooseProfile]

theorem callerSession_answer {client m : K} {e x : ℕ} {answer : CallAnswer K}
    (hidentity : answer.identityPub = m) (hephemeral : answer.ephemeralPub = x)
    (hsignature : answer.signature = .sign m (answerData x)) :
    callerSession client e (some (.callAnswer answer)) = some ⟨.caller, client, m, (e, x)⟩ := by
  subst hidentity hephemeral
  have hverify : verify answer.identityPub (answerData answer.ephemeralPub) answer.signature = true :=
    World.verify_iff.mpr hsignature
  simp [callerSession, finishHandshake, hverify]

omit [DecidableEq K] [DecidablePred bad] in
/-- The attacker signs a number with a key of its own. -/
theorem deducible_signed {known : List (Text K)} {m : K} (hm : bad m) {label : String} {x : ℕ} :
    Deducible bad known (.pair (.atom (.key m)) (.pair (.atom (.ephemeral x))
      (.sign m (.pair (.atom (.ephemeral x)) (.atom (.label label)))))) :=
  .pair (.atom _) (.pair (.atom _) (.sign hm (.pair (.atom _) (.atom _))))

section exchange
variable {client relay m : K} {e e' : ℕ} (callerAlias : Option String) (videoCodecs : List CodecId)

theorem offer_waits : (w.waiting ++ [(client, e)]).contains (client, e) = true :=
  List.contains_iff_mem.mpr (List.mem_append_right _ List.mem_cons_self)

/-- An exchange in which the relay is shown `m` for the client. -/
def exchange (client relay m : K) (e e' : ℕ) (callerAlias : Option String)
    (videoCodecs : List CodecId) : List (KeyEvent K) :=
  [.offer client e callerAlias videoCodecs,
    .answer relay e' (some (.callOffer (offerAs m client e callerAlias videoCodecs))),
    .finish client e (some (.callAnswer (answerOf relay e' videoCodecs)))]

theorem exchange_possible (hclient : ¬ bad client) (hrelay : ¬ bad relay)
    (he : e ∉ w.drawn ∧ ¬ held e) (he' : e' ∉ w.drawn ∧ ¬ held e') (hne : e ≠ e')
    (hm : m = client ∨ bad m) :
    EachStep (step bad) (Possible bad held) w
      (exchange client relay m e e' callerAlias videoCodecs) := by
  obtain ⟨-, hreply⟩ := acceptHandshake_offerAs m client relay e e' callerAlias videoCodecs
  refine ⟨he, ⟨?_, he'.2, ?_⟩, ?_, trivial⟩
  · simp [KeyNet.step, hclient, he'.1, hne.symm]
  · rintro signal ⟨⟩
    rcases hm with rfl | hm
    · refine .known (List.mem_map.mpr ⟨_, ?_, rfl⟩)
      simp only [KeyNet.step, if_neg hclient]
      exact List.mem_append_right _ List.mem_cons_self
    · exact deducible_signed hm
  · rintro signal ⟨⟩
    refine .known (List.mem_map.mpr ⟨_, ?_, rfl⟩)
    simp only [KeyNet.step, if_neg hclient, if_neg hrelay, hreply]
    exact List.mem_append_right _ List.mem_cons_self

theorem exchange_sessions (hclient : ¬ bad client) (hrelay : ¬ bad relay) :
    (run (step bad) w (exchange client relay m e e' callerAlias videoCodecs)).sessions =
      w.sessions ++ [⟨.callee, relay, m, (e', e)⟩, ⟨.caller, client, relay, (e, e')⟩] := by
  obtain ⟨hcallee, -⟩ := acceptHandshake_offerAs m client relay e e' callerAlias videoCodecs
  have hcaller : callerSession client e (some (.callAnswer (answerOf relay e' videoCodecs))) =
      some ⟨.caller, client, relay, (e, e')⟩ := callerSession_answer rfl rfl rfl
  simp only [exchange, run_cons, run_nil, KeyNet.step, if_neg hclient, if_neg hrelay, hcallee,
    hcaller, if_pos offer_waits, Option.toList_some, List.append_assoc, List.singleton_append]

/-- The attacker answers the client itself. -/
def takeover (client m : K) (e x : ℕ) (callerAlias : Option String) (videoCodecs : List CodecId) :
    List (KeyEvent K) :=
  [.offer client e callerAlias videoCodecs,
    .finish client e (some (.callAnswer (answerOf m x videoCodecs)))]

theorem takeover_possible {x : ℕ} (he : e ∉ w.drawn ∧ ¬ held e) (hm : bad m) :
    EachStep (step bad) (Possible bad held) w (takeover client m e x callerAlias videoCodecs) := by
  refine ⟨he, ?_, trivial⟩
  rintro signal ⟨⟩
  exact deducible_signed hm

theorem takeover_drawn {x : ℕ} (hclient : ¬ bad client) :
    (run (step bad) w (takeover client m e x callerAlias videoCodecs)).drawn = w.drawn ++ [e] := by
  simp only [takeover, run_cons, run_nil, KeyNet.step, if_neg hclient, if_pos offer_waits]

theorem takeover_sessions {x : ℕ} (hclient : ¬ bad client) :
    (run (step bad) w (takeover client m e x callerAlias videoCodecs)).sessions =
      w.sessions ++ [⟨.caller, client, m, (e, x)⟩] := by
  have hcaller : callerSession client e (some (.callAnswer (answerOf m x videoCodecs))) =
      some ⟨.caller, client, m, (e, x)⟩ := callerSession_answer rfl rfl rfl
  simp only [takeover, run_cons, run_nil, KeyNet.step, if_neg hclient, hcaller,
    if_pos offer_waits, Option.toList_some]

/-- With a number that takes every secret to one key, as 32 zero bytes do, the attacker leaves two
callers with one key: no comparison of their keys shows that it is between them. -/
theorem takeover_key_eq {client' : K} {e' z : ℕ} (hclient : ¬ bad client) (hclient' : ¬ bad client')
    (hm : bad m) (he : e ∉ w.drawn ∧ ¬ held e) (he' : e' ∉ w.drawn ∧ ¬ held e') (hne : e ≠ e')
    (hz : ∀ a b, deriveSession a z = deriveSession b z) :
    let w' := run (step bad) w (takeover client m e z callerAlias videoCodecs)
    EachStep (step bad) (Possible bad held) w (takeover client m e z callerAlias videoCodecs) ∧
      EachStep (step bad) (Possible bad held) w'
        (takeover client' m e' z callerAlias videoCodecs) ∧
      ∃ s t, (run (step bad) w' (takeover client' m e' z callerAlias videoCodecs)).sessions =
          w.sessions ++ [s, t] ∧
        s.self = client ∧ t.self = client' ∧ s.key deriveSession = t.key deriveSession := by
  intro w'
  have hdrawn : w'.drawn = w.drawn ++ [e] := takeover_drawn _ _ hclient
  have hfresh : e' ∉ w'.drawn := by simp [hdrawn, he'.1, hne.symm]
  refine ⟨takeover_possible _ _ he hm, takeover_possible _ _ ⟨hfresh, he'.2⟩ hm,
    ⟨.caller, client, m, (e, z)⟩, ⟨.caller, client', m, (e', z)⟩, ?_, rfl, rfl, hz e e'⟩
  rw [takeover_sessions _ _ hclient', takeover_sessions _ _ hclient, List.append_assoc]
  rfl

end exchange

/-! ## Agreement -/

/-- The two ends come to one key from their two secrets, and 0 takes every secret to one key. -/
def pairOf (a x : ℕ) : Option (Sym2 ℕ) := if x = 0 then none else some s(a, x)

theorem pairOf_separates : Separates (fun e => e = 0 ∨ 100 ≤ e) pairOf := by
  intro a b _ hb c x hkey
  have hb' : b ≠ 0 := fun h => hb (Or.inl h)
  rw [pairOf, if_neg hb', pairOf] at hkey
  split at hkey
  · cases hkey
  · rcases Sym2.eq_iff.mp (Option.some.inj hkey) with ⟨h, -⟩ | ⟨-, h⟩
    · exact Or.inl h.symm
    · exact Or.inr h.symm

/-- From any state an honest client and an honest relay come to one key, and the relay takes
the other end for any identity of the attacker's just as well as for the client. And any
identity of the attacker's may answer the client, with a secret of the attacker's: the client
does not look for whom it called. -/
theorem handshake_completes (bad : K → Prop) [DecidablePred bad] (held : ℕ → Prop) (w : KeyNet K)
    (client relay m : K) (e e' : ℕ) (callerAlias : Option String) (videoCodecs : List CodecId)
    (hclient : ¬ bad client) (hrelay : ¬ bad relay) (he : e ∉ w.drawn ∧ ¬ held e)
    (he' : e' ∉ w.drawn ∧ ¬ held e') (hne : e ≠ e') :
    (m = client ∨ bad m →
      EachStep (step bad) (Possible bad held) w
          (exchange client relay m e e' callerAlias videoCodecs) ∧
        (run (step bad) w (exchange client relay m e e' callerAlias videoCodecs)).sessions =
          w.sessions ++ [⟨.callee, relay, m, (e', e)⟩, ⟨.caller, client, relay, (e, e')⟩]) ∧
    (∀ x, bad m → held x →
      let es := [.offer client e callerAlias videoCodecs,
        .finish client e (some (.callAnswer (answerOf m x videoCodecs)))]
      EachStep (step bad) (Possible bad held) w es ∧
        (run (step bad) w es).sessions = w.sessions ++ [⟨.caller, client, m, (e, x)⟩]) := by
  refine ⟨fun hm => ⟨exchange_possible _ _ hclient hrelay he he' hne hm,
    exchange_sessions _ _ hclient hrelay⟩, fun x hm _ => ?_⟩
  exact ⟨takeover_possible _ _ he hm, takeover_sessions _ _ hclient⟩

theorem handshake_completes_new :
    (9 = 1 ∨ 9 = 9 →
      EachStep (step (· = 9)) (Possible (· = 9) (100 ≤ ·)) new (exchange 1 2 9 10 11 none []) ∧
        (run (step (· = 9)) new (exchange 1 2 9 10 11 none [])).sessions =
          (new : KeyNet ℕ).sessions ++ [⟨.callee, 2, 9, (11, 10)⟩, ⟨.caller, 1, 2, (10, 11)⟩]) ∧
    (∀ x, 9 = 9 → 100 ≤ x →
      let es := [.offer 1 10 none [], .finish 1 10 (some (.callAnswer (answerOf 9 x [])))]
      EachStep (step (· = 9)) (Possible (· = 9) (100 ≤ ·)) new es ∧
        (run (step (· = 9)) new es).sessions =
          (new : KeyNet ℕ).sessions ++ [⟨.caller, 1, 9, (10, x)⟩]) :=
  handshake_completes (· = 9) (100 ≤ ·) new 1 2 9 10 11 none [] (by decide) (by decide)
    ⟨List.not_mem_nil, by decide⟩ ⟨List.not_mem_nil, by decide⟩ (by decide)

end KeyNet
end Wzp.Relay.Handshake
