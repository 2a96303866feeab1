import Wzp.Lib.Runs
import Wzp.Proto.Profile

/-!
# Who a connection is from

Relays and clients in a network that is in the hands of an attacker. A key stands for
the one who signs with it, and a byte string of a key's length with a label behind it
for the pair of the two. There is no `--auth-url`.
-/

/-! ## Symbolic messages

Messages are terms, and who does not hold a signing key has to come by its
signatures. A signature shows nothing of what it signs. -/
namespace Symbolic

inductive Term (K D : Type*) where
  | atom (d : D)
  | pair (s t : Term K D)
  | hash (t : Term K D)
  | sign (key : K) (t : Term K D)
  deriving DecidableEq

variable {K D : Type*}

/-- What can be put together from the terms known with the signing keys at hand. -/
inductive Deducible (holds : K → Prop) (known : List (Term K D)) : Term K D → Prop where
  | known {t} : t ∈ known → Deducible holds known t
  | atom (d) : Deducible holds known (.atom d)
  | pair {s t} : Deducible holds known s → Deducible holds known t → Deducible holds known (.pair s t)
  | fst {s t} : Deducible holds known (.pair s t) → Deducible holds known s
  | snd {s t} : Deducible holds known (.pair s t) → Deducible holds known t
  | hash {t} : Deducible holds known t → Deducible holds known (.hash t)
  | sign {key t} : holds key → Deducible holds known t → Deducible holds known (.sign key t)

/-- The terms that a term shows. -/
def Term.Shows (s : Term K D) : Term K D → Prop
  | .pair t u => s = .pair t u ∨ s.Shows t ∨ s.Shows u
  | t => s = t

variable {holds : K → Prop} {known : List (Term K D)} {s t u : Term K D} {key : K}

theorem Term.Shows.of_pair_left (h : s.Shows t) : s.Shows (.pair t u) := Or.inr (Or.inl h)

theorem Term.Shows.of_pair_right (h : s.Shows u) : s.Shows (.pair t u) := Or.inr (Or.inr h)

/-- A signature under a key that is not at hand has been shown before. -/
theorem Deducible.sign_shown (hkey : ¬ holds key) (h : Deducible holds known t)
    (hshows : (Term.sign key u).Shows t) : ∃ k ∈ known, (Term.sign key u).Shows k := by
  induction h with
  | known hmem => exact ⟨_, hmem, hshows⟩
  | atom d => cases hshows
  | pair _ _ ihs iht =>
      rcases hshows with heq | hs | ht
      · cases heq
      · exact ihs hs
      · exact iht ht
  | fst _ ih => exact ih hshows.of_pair_left
  | snd _ ih => exact ih hshows.of_pair_right
  | hash _ _ => cases hshows
  | sign hholds _ _ =>
      cases hshows
      exact absurd hholds hkey

end Symbolic

namespace Wzp.Relay.Handshake
open Proto Symbolic Runs

inductive Datum (K : Type) where
  | key (key : K)
  | ephemeral (n : ℕ)
  | label (text : String)
  deriving DecidableEq

abbrev Text (K : Type) := Term K (Datum K)

structure CallOffer (K : Type) where
  identityPub : K
  ephemeralPub : ℕ
  signature : Text K
  supportedProfiles : List QualityProfile
  callerAlias : Option String
  protocolVersion : UInt8
  videoCodecs : List CodecId

structure CallAnswer (K : Type) where
  identityPub : K
  ephemeralPub : ℕ
  signature : Text K
  chosenProfile : QualityProfile
  videoCodec : Option CodecId

structure RegisterPresence (K : Type) where
  identityPub : K
  signature : Text K
  callerAlias : Option String

inductive Signal (K : Type) where
  | callOffer (offer : CallOffer K)
  | callAnswer (answer : CallAnswer K)
  | hangup (serverSupported : List UInt8)
  | registerPresence (presence : RegisterPresence K)
  | registerPresenceAck

variable {K : Type} [DecidableEq K]

def offerData (ephemeralPub : ℕ) : Text K :=
  .pair (.atom (.ephemeral ephemeralPub)) (.atom (.label "call-offer"))

def answerData (ephemeralPub : ℕ) : Text K :=
  .pair (.atom (.ephemeral ephemeralPub)) (.atom (.label "call-answer"))

def verify (identityPub : K) (data signature : Text K) : Bool := signature = .sign identityPub data

def fingerprint (identityPub : K) : Text K := .hash (.atom (.key identityPub))

/-- The offered profiles are not looked at. -/
def chooseProfile (_supported : List QualityProfile) : QualityProfile := .good

/-- What the handshake hands over: the two ephemeral keys of the session, and who it is. -/
structure Accepted (K : Type) where
  session : ℕ × ℕ
  chosenProfile : QualityProfile
  fingerprint : Text K
  callerAlias : Option String

/-- The relay's side, with what it sends back. -/
def acceptHandshake (relay : K) (ephemeralPub : ℕ) :
    Option (Signal K) → Except String (Accepted K) × List (Signal K)
  | some (.callOffer offer) =>
      if offer.protocolVersion ≠ 2 then
        (.error ("protocol version mismatch: client requested " ++ toString offer.protocolVersion ++
          ", server supports [2]"), [.hangup [2]])
      else if !verify offer.identityPub (offerData offer.ephemeralPub) offer.signature then
        (.error "caller signature verification failed", [])
      else
        (.ok ⟨(ephemeralPub, offer.ephemeralPub), chooseProfile offer.supportedProfiles,
            fingerprint offer.identityPub, offer.callerAlias⟩,
          [.callAnswer ⟨relay, ephemeralPub, .sign relay (answerData ephemeralPub),
            chooseProfile offer.supportedProfiles, offer.videoCodecs.head?⟩])
  | some _ => (.error "expected CallOffer", [])
  | none => (.error "connection closed before receiving CallOffer", [])

/-- The client's offer. -/
def performHandshake (client : K) (ephemeralPub : ℕ) (callerAlias : Option String)
    (videoCodecs : List CodecId) : CallOffer K where
  identityPub := client
  ephemeralPub := ephemeralPub
  signature := .sign client (offerData ephemeralPub)
  supportedProfiles := [.studio64k, .studio48k, .studio32k, .good, .degraded, .catastrophic]
  callerAlias := callerAlias
  protocolVersion := 2
  videoCodecs := videoCodecs

/-- The clients leave the signature empty. -/
def presenceOf (client : K) (callerAlias : Option String) : RegisterPresence K :=
  ⟨client, .atom (.label ""), callerAlias⟩

/-- The relay does not look at the signature. -/
def registerPresence : Option (Signal K) → Option (Text K × Option String)
  | some (.registerPresence presence) => some (fingerprint presence.identityPub, presence.callerAlias)
  | _ => none

/-! ## The network -/

/-- A connection that an honest client has opened, with the signature it has made. -/
structure Opening (K : Type) where
  client : K
  relay : K
  connection : ℕ
  signature : Option (Text K)

/-- A connection that an honest relay has taken for that of a fingerprint, with the
signature it has verified. -/
structure Acceptance (K : Type) where
  relay : K
  connection : ℕ
  fingerprint : Text K
  signature : Option (Text K)

structure World (K : Type) where
  /-- Numbers from here on are fresh. -/
  next : ℕ
  opened : List (Opening K)
  sent : List (Signal K)
  /-- The connections whose first message has been taken. -/
  used : List (K × ℕ)
  accepted : List (Acceptance K)

/-- Honest clients open connections; what a relay gets as the first message of one is up
to the attacker. -/
inductive Event (K : Type) where
  | openRoom (client relay : K) (callerAlias : Option String) (videoCodecs : List CodecId)
  | openSignal (client relay : K) (callerAlias : Option String)
  | recvRoom (relay : K) (connection : ℕ) (message : Option (Signal K))
  | recvSignal (relay : K) (connection : ℕ) (message : Option (Signal K))

def Signal.signature? : Signal K → Option (Text K)
  | .callOffer offer => some offer.signature
  | _ => none

/-- The attacker may fill in all that is not a signature. -/
def Signal.toTerm : Signal K → Text K
  | .callOffer offer => .pair (.atom (.key offer.identityPub))
      (.pair (.atom (.ephemeral offer.ephemeralPub)) offer.signature)
  | .callAnswer answer => .pair (.atom (.key answer.identityPub))
      (.pair (.atom (.ephemeral answer.ephemeralPub)) answer.signature)
  | .registerPresence presence => .pair (.atom (.key presence.identityPub)) presence.signature
  | .hangup _ => .atom (.label "hangup")
  | .registerPresenceAck => .atom (.label "ack")

namespace World

def new : World K := ⟨0, [], [], [], []⟩

-- the keys of the attacker
variable (bad : K → Prop) [DecidablePred bad]

def step (w : World K) : Event K → World K
  | .openRoom client relay callerAlias videoCodecs =>
      if bad client then w
      else
        let offer := performHandshake client w.next callerAlias videoCodecs
        { w with
          next := w.next + 1
          opened := w.opened ++ [⟨client, relay, w.next, some offer.signature⟩]
          sent := w.sent ++ [.callOffer offer] }
  | .openSignal client relay callerAlias =>
      if bad client then w
      else
        { w with
          next := w.next + 1
          opened := w.opened ++ [⟨client, relay, w.next, none⟩]
          sent := w.sent ++ [.registerPresence (presenceOf client callerAlias)] }
  | .recvRoom relay connection message =>
      if bad relay ∨ (relay, connection) ∈ w.used then w
      else
        let handshake := acceptHandshake relay w.next message
        { w with
          next := w.next + 1
          sent := w.sent ++ handshake.2
          used := w.used ++ [(relay, connection)]
          accepted := w.accepted ++ handshake.1.toOption.toList.map fun accepted =>
            ⟨relay, connection, accepted.fingerprint, message.bind Signal.signature?⟩ }
  | .recvSignal relay connection message =>
      if bad relay ∨ (relay, connection) ∈ w.used then w
      else
        let registered := registerPresence message
        { w with
          sent := w.sent ++ registered.toList.map fun _ => .registerPresenceAck
          used := w.used ++ [(relay, connection)]
          accepted := w.accepted ++ registered.toList.map fun registered =>
            ⟨relay, connection, registered.1, none⟩ }

/-- The attacker sends what it can put together from all that has been sent. -/
def Possible (w : World K) : Event K → Prop
  | .recvRoom _ _ message =>
      ∀ signal ∈ message, Deducible bad (w.sent.map Signal.toTerm) signal.toTerm
  | .recvSignal _ _ message =>
      ∀ signal ∈ message, Deducible bad (w.sent.map Signal.toTerm) signal.toTerm
  | _ => True

/-- The client has opened this connection to this relay, and signed for it what the relay
has verified. -/
def SignedFor (w : World K) (client : K) (a : Acceptance K) : Prop :=
  ∃ o ∈ w.opened, o.client = client ∧ o.relay = a.relay ∧ o.connection = a.connection ∧
    ∃ signature, o.signature = some signature ∧ a.signature = some signature

/-- A connection taken for that of an honest client is that of the client, and no
signature of an honest client serves twice. -/
structure Authentic (w : World K) : Prop where
  opened : ∀ a ∈ w.accepted, ∀ k, ¬ bad k → a.fingerprint = fingerprint k → w.SignedFor k a
  once : w.accepted.Pairwise fun a b =>
    ∀ k, ¬ bad k → a.fingerprint = fingerprint k → a.signature ≠ b.signature

/-- What the first message of a connection must not be: an offer that an honest client
has signed for another connection, or a presence with the key of an honest client. -/
def NoReplay (w : World K) : Event K → Prop
  | .recvRoom relay connection message => ¬ bad relay → (relay, connection) ∉ w.used →
      ∀ offer, message = some (.callOffer offer) → ¬ bad offer.identityPub →
        offer.protocolVersion = 2 →
        verify offer.identityPub (offerData offer.ephemeralPub) offer.signature = true →
        ∀ o ∈ w.opened, o.client = offer.identityPub → o.signature = some offer.signature →
          o.relay = relay ∧ o.connection = connection
  | .recvSignal relay connection message => ¬ bad relay → (relay, connection) ∉ w.used →
      ∀ presence, message = some (.registerPresence presence) → bad presence.identityPub
  | _ => True

/-! ## What is known of the signatures -/

/-- The signatures of honest clients have been made for connections they opened, and
each connection has its own. -/
structure Sound (w : World K) : Prop where
  fresh : ∀ o ∈ w.opened, o.connection < w.next
  distinct : ∀ o ∈ w.opened, ∀ o' ∈ w.opened, o.connection = o'.connection → o = o'
  made : ∀ o ∈ w.opened, ∀ signature, o.signature = some signature →
    signature = .sign o.client (offerData o.connection)
  shown : ∀ signal ∈ w.sent, ∀ k, ¬ bad k → ∀ e,
    (Term.sign k (offerData e)).Shows signal.toTerm →
      ∃ o ∈ w.opened, o.client = k ∧ o.signature = some (.sign k (offerData e))
  taken : ∀ a ∈ w.accepted, (a.relay, a.connection) ∈ w.used

variable {bad} {w : World K}

omit [DecidableEq K] in
theorem offerData_injective {e e' : ℕ} (h : (offerData e : Text K) = offerData e') : e = e' := by
  cases h
  rfl

omit [DecidableEq K] in
theorem fingerprint_injective {k k' : K} (h : fingerprint k = fingerprint k') : k = k' := by
  cases h
  rfl

theorem verify_iff {k : K} {data signature : Text K} :
    verify k data signature = true ↔ signature = .sign k data := decide_eq_true_iff

omit [DecidableEq K] [DecidablePred bad] in
/-- One signature, one connection. -/
theorem Sound.opening_unique (h : Sound bad w) {o o' : Opening K} (ho : o ∈ w.opened)
    (ho' : o' ∈ w.opened) {signature : Text K} (hs : o.signature = some signature)
    (hs' : o'.signature = some signature) : o = o' := by
  have hmade := h.made o ho signature hs
  rw [h.made o' ho' signature hs'] at hmade
  cases hmade' : o
  cases hmade'' : o'
  subst hmade' hmade''
  injection hmade with _ hdata
  exact h.distinct _ ho _ ho' (offerData_injective hdata).symm

omit [DecidableEq K] [DecidablePred bad] in
/-- What the attacker shows of an honest client's offers, the client has signed. -/
theorem Sound.signed (h : Sound bad w) {k : K} (hk : ¬ bad k) {e : ℕ} {signal : Signal K}
    (hdeduced : Deducible bad (w.sent.map Signal.toTerm) signal.toTerm)
    (hshows : (Term.sign k (offerData e)).Shows signal.toTerm) :
    ∃ o ∈ w.opened, o.client = k ∧ o.signature = some (.sign k (offerData e)) := by
  obtain ⟨t, hmem, ht⟩ := hdeduced.sign_shown hk hshows
  obtain ⟨sent, hsent, rfl⟩ := List.mem_map.mp hmem
  exact h.shown sent hsent k hk e ht

theorem acceptHandshake_cases (relay : K) (e : ℕ) (message : Option (Signal K)) :
    (∃ offer, message = some (.callOffer offer) ∧ offer.protocolVersion = 2 ∧
      verify offer.identityPub (offerData offer.ephemeralPub) offer.signature = true ∧
      ∃ accepted, (acceptHandshake relay e message).1 = .ok accepted ∧
        accepted.fingerprint = fingerprint offer.identityPub) ∨
    ((∃ error, (acceptHandshake relay e message).1 = .error error) ∧
      ∀ offer, message = some (.callOffer offer) → offer.protocolVersion = 2 →
        verify offer.identityPub (offerData offer.ephemeralPub) offer.signature = false) := by
  cases message with
  | none => exact Or.inr ⟨⟨_, rfl⟩, fun _ h => by cases h⟩
  | some signal =>
      cases signal with
      | callOffer offer =>
          unfold acceptHandshake
          by_cases hversion : offer.protocolVersion = 2
          · cases hverify : verify offer.identityPub (offerData offer.ephemeralPub) offer.signature with
            | true =>
                refine Or.inl ⟨offer, rfl, hversion, hverify, ?_⟩
                simp only [hversion, hverify]
                exact ⟨_, rfl, rfl⟩
            | false =>
                refine Or.inr ⟨?_, ?_⟩
                · simp only [hversion, hverify]
                  exact ⟨_, rfl⟩
                · rintro offer' ⟨⟩ -
                  exact hverify
          · refine Or.inr ⟨?_, ?_⟩
            · simp only [ne_eq, hversion, not_false_eq_true, if_true]
              exact ⟨_, rfl⟩
            · rintro offer' ⟨⟩ h
              exact absurd h hversion
      | _ => exact Or.inr ⟨⟨_, rfl⟩, fun _ h => by cases h⟩

omit [DecidableEq K] in
theorem registerPresence_some {message : Option (Signal K)} {registered : Text K × Option String}
    (h : registerPresence message = some registered) :
    ∃ presence, message = some (.registerPresence presence) := by
  cases message with
  | none => cases h
  | some signal =>
      cases signal with
      | registerPresence presence => exact ⟨presence, rfl⟩
      | _ => cases h

/-- The relay's replies show no signature under an offer. -/
theorem acceptHandshake_replies (relay : K) (e : ℕ) (message : Option (Signal K)) :
    ∀ signal ∈ (acceptHandshake relay e message).2, ∀ k e',
      ¬ (Term.sign k (offerData e')).Shows signal.toTerm := by
  intro signal hmem k e' hshows
  cases message with
  | none => exact absurd hmem List.not_mem_nil
  | some first =>
      cases first with
      | callOffer offer =>
          unfold acceptHandshake at hmem
          dsimp only at hmem
          split at hmem
          · rw [List.mem_singleton.mp hmem] at hshows
            cases hshows
          · split at hmem
            · exact absurd hmem List.not_mem_nil
            · rw [List.mem_singleton.mp hmem] at hshows
              rcases hshows with h | h | h | h | hsign
              · cases h
              · cases h
              · cases h
              · cases h
              · injection hsign with _ hdata
                injection hdata with _ hlabel
                injection hlabel with htext
                injection htext with htext
                exact absurd htext (by decide)
      | _ => exact absurd hmem List.not_mem_nil

omit [DecidableEq K] [DecidablePred bad] in
theorem Sound.open {client relay : K} {signature : Option (Text K)} {signal : Signal K}
    (h : Sound bad w)
    (hmade : ∀ s, signature = some s → s = .sign client (offerData w.next))
    (hshown : ∀ k, ¬ bad k → ∀ e, (Term.sign k (offerData e)).Shows signal.toTerm →
      client = k ∧ signature = some (.sign k (offerData e))) :
    Sound bad { w with
      next := w.next + 1
      opened := w.opened ++ [⟨client, relay, w.next, signature⟩]
      sent := w.sent ++ [signal] } := by
  refine ⟨fun o ho => ?_, fun o ho o' ho' heq => ?_, fun o ho s hs => ?_,
    fun sent hsent k hk e hshows => ?_, h.taken⟩
  · cases List.mem_append.mp ho with
    | inl hold => exact Nat.lt_succ_of_lt (h.fresh o hold)
    | inr hnew =>
        rw [List.mem_singleton.mp hnew]
        exact Nat.lt_succ_self _
  · cases List.mem_append.mp ho with
    | inl hold =>
        cases List.mem_append.mp ho' with
        | inl hold' => exact h.distinct o hold o' hold' heq
        | inr hnew' =>
            rw [List.mem_singleton.mp hnew'] at heq
            exact absurd heq (Nat.ne_of_lt (h.fresh o hold))
    | inr hnew =>
        cases List.mem_append.mp ho' with
        | inl hold' =>
            rw [List.mem_singleton.mp hnew] at heq
            exact absurd heq.symm (Nat.ne_of_lt (h.fresh o' hold'))
        | inr hnew' => rw [List.mem_singleton.mp hnew, List.mem_singleton.mp hnew']
  · cases List.mem_append.mp ho with
    | inl hold => exact h.made o hold s hs
    | inr hnew =>
        rw [List.mem_singleton.mp hnew] at hs ⊢
        exact hmade s hs
  · cases List.mem_append.mp hsent with
    | inl hold =>
        obtain ⟨o, ho, hclient⟩ := h.shown sent hold k hk e hshows
        exact ⟨o, List.mem_append_left _ ho, hclient⟩
    | inr hnew =>
        rw [List.mem_singleton.mp hnew] at hshows
        obtain ⟨hclient, hsignature⟩ := hshown k hk e hshows
        exact ⟨_, List.mem_concat_self, hclient, hsignature⟩

omit [DecidableEq K] [DecidablePred bad] in
theorem Sound.receive {relay : K} {connection next' : ℕ} {replies : List (Signal K)}
    {acceptances : List (Acceptance K)} (h : Sound bad w) (hnext : w.next ≤ next')
    (hreplies : ∀ signal ∈ replies, ∀ k e, ¬ (Term.sign k (offerData e)).Shows signal.toTerm)
    (hacceptances : ∀ a ∈ acceptances, a.relay = relay ∧ a.connection = connection) :
    Sound bad { w with
      next := next'
      sent := w.sent ++ replies
      used := w.used ++ [(relay, connection)]
      accepted := w.accepted ++ acceptances } := by
  refine ⟨fun o ho => Nat.lt_of_lt_of_le (h.fresh o ho) hnext, h.distinct, h.made,
    fun sent hsent k hk e hshows => ?_, fun a ha => ?_⟩
  · cases List.mem_append.mp hsent with
    | inl hold => exact h.shown sent hold k hk e hshows
    | inr hnew => exact absurd hshows (hreplies sent hnew k e)
  · cases List.mem_append.mp ha with
    | inl hold => exact List.mem_append_left _ (h.taken a hold)
    | inr hnew =>
        obtain ⟨hrelay, hconnection⟩ := hacceptances a hnew
        rw [hrelay, hconnection]
        exact List.mem_concat_self

theorem Sound.step (h : Sound bad w) (event : Event K) : Sound bad (w.step bad event) := by
  cases event with
  | openRoom client relay callerAlias videoCodecs =>
      unfold World.step
      dsimp only
      split
      · exact h
      · refine h.open (fun s hs => (Option.some.inj hs).symm) fun k hk e hshows => ?_
        rcases hshows with hpair | hkey | hpair | hephemeral | hsign
        · cases hpair
        · cases hkey
        · cases hpair
        · cases hephemeral
        · cases hsign
          exact ⟨rfl, rfl⟩
  | openSignal client relay callerAlias =>
      unfold World.step
      dsimp only
      split
      · exact h
      · refine h.open (fun s hs => by cases hs) fun k hk e hshows => ?_
        rcases hshows with hpair | hkey | hsign
        · cases hpair
        · cases hkey
        · cases hsign
  | recvRoom relay connection message =>
      unfold World.step
      dsimp only
      split
      · exact h
      · refine h.receive (Nat.le_succ _) (acceptHandshake_replies relay w.next message) ?_
        intro a ha
        obtain ⟨accepted, -, rfl⟩ := List.mem_map.mp ha
        exact ⟨rfl, rfl⟩
  | recvSignal relay connection message =>
      unfold World.step
      dsimp only
      split
      · exact h
      · refine h.receive (Nat.le_refl _) ?_ ?_
        · intro signal hsignal k e hshows
          obtain ⟨registered, -, rfl⟩ := List.mem_map.mp hsignal
          cases hshows
        · intro a ha
          obtain ⟨registered, -, rfl⟩ := List.mem_map.mp ha
          exact ⟨rfl, rfl⟩

omit [DecidableEq K] [DecidablePred bad] in
theorem Sound.new : Sound bad (new : World K) :=
  ⟨fun _ h => absurd h List.not_mem_nil, fun _ h => absurd h List.not_mem_nil,
    fun _ h => absurd h List.not_mem_nil, fun _ h => absurd h List.not_mem_nil,
    fun _ h => absurd h List.not_mem_nil⟩

/-! ## What a step keeps authentic -/

omit [DecidableEq K] [DecidablePred bad] in
theorem Authentic.of_opened {w' : World K} (h : Authentic bad w) (hopened : w.opened ⊆ w'.opened)
    (haccepted : w'.accepted = w.accepted) : Authentic bad w' := by
  refine ⟨fun a ha k hk hf => ?_, by rw [haccepted]; exact h.once⟩
  rw [haccepted] at ha
  obtain ⟨o, ho, hsigned⟩ := h.opened a ha k hk hf
  exact ⟨o, hopened ho, hsigned⟩

omit [DecidableEq K] [DecidablePred bad] in
theorem authentic_accept_iff {w' : World K} {a : Acceptance K} (h : Authentic bad w)
    (hopened : w'.opened = w.opened) (haccepted : w'.accepted = w.accepted ++ [a]) :
    Authentic bad w' ↔
      (∀ k, ¬ bad k → a.fingerprint = fingerprint k → w.SignedFor k a) ∧
        ∀ b ∈ w.accepted, ∀ k, ¬ bad k → b.fingerprint = fingerprint k →
          b.signature ≠ a.signature := by
  have hsigned : ∀ k b, w'.SignedFor k b ↔ w.SignedFor k b := fun k b => by
    unfold SignedFor
    rw [hopened]
  constructor
  · intro h'
    refine ⟨fun k hk hf => (hsigned k a).mp (h'.opened a ?_ k hk hf), fun b hb k hk hf => ?_⟩
    · rw [haccepted]
      exact List.mem_concat_self
    · have honce := h'.once
      rw [haccepted] at honce
      exact (List.pairwise_append.mp honce).2.2 b hb a (List.mem_singleton_self a) k hk hf
  · rintro ⟨hnew, hother⟩
    refine ⟨fun b hb k hk hf => (hsigned k b).mpr ?_, ?_⟩
    · rw [haccepted] at hb
      cases List.mem_append.mp hb with
      | inl hold => exact h.opened b hold k hk hf
      | inr hlast =>
          rw [List.mem_singleton.mp hlast] at hf ⊢
          exact hnew k hk hf
    · rw [haccepted, List.pairwise_append]
      refine ⟨h.once, List.pairwise_singleton _ _, fun b hb a' ha' => ?_⟩
      rw [List.mem_singleton.mp ha']
      exact hother b hb

omit [DecidablePred bad] in
/-- An offer that has been verified. -/
theorem authentic_offer_iff {w' : World K} {relay : K} {connection : ℕ} {offer : CallOffer K}
    (hsound : Sound bad w) (h : Authentic bad w) (hunused : (relay, connection) ∉ w.used)
    (hdeduced : Deducible bad (w.sent.map Signal.toTerm) (Signal.callOffer offer).toTerm)
    (hverify : verify offer.identityPub (offerData offer.ephemeralPub) offer.signature = true)
    (hopened : w'.opened = w.opened)
    (haccepted : w'.accepted = w.accepted ++
      [⟨relay, connection, fingerprint offer.identityPub, some offer.signature⟩]) :
    Authentic bad w' ↔ (¬ bad offer.identityPub → ∀ o ∈ w.opened, o.client = offer.identityPub →
      o.signature = some offer.signature → o.relay = relay ∧ o.connection = connection) := by
  rw [verify_iff] at hverify
  rw [authentic_accept_iff h hopened haccepted]
  constructor
  · rintro ⟨hsigned, -⟩ hk o ho - hsignature
    obtain ⟨o', ho', -, hrelay, hconnection, signature, hmade, haccept⟩ := hsigned _ hk rfl
    rw [← haccept] at hmade
    obtain rfl := hsound.opening_unique ho ho' hsignature hmade
    exact ⟨hrelay, hconnection⟩
  · intro hok
    refine ⟨fun k hk hf => ?_, fun b hb k hk hf heq => ?_⟩
    · obtain rfl := fingerprint_injective hf
      have hshows : (Term.sign offer.identityPub (offerData offer.ephemeralPub)).Shows
          (Signal.callOffer offer).toTerm := by
        refine Term.Shows.of_pair_right (Term.Shows.of_pair_right ?_)
        rw [hverify]
        exact rfl
      obtain ⟨o, ho, hclient, hsignature⟩ := hsound.signed hk hdeduced hshows
      rw [← hverify] at hsignature
      obtain ⟨hrelay, hconnection⟩ := hok hk o ho hclient hsignature
      exact ⟨o, ho, hclient, hrelay, hconnection, _, hsignature, rfl⟩
    -- the opening behind the earlier acceptance would be of this connection
    · obtain ⟨o, ho, hclient, hrelay, hconnection, signature, hmade, haccept⟩ := h.opened b hb k hk hf
      rw [heq] at haccept
      obtain rfl := Option.some.inj haccept
      have hsign := hsound.made o ho _ hmade
      rw [hverify] at hsign
      injection hsign with hidentity _
      have hhonest : ¬ bad offer.identityPub := by
        rw [hidentity, hclient]
        exact hk
      obtain ⟨hrelay', hconnection'⟩ := hok hhonest o ho hidentity.symm hmade
      have htaken := hsound.taken b hb
      rw [← hrelay, ← hconnection, hrelay', hconnection'] at htaken
      exact hunused htaken

omit [DecidableEq K] [DecidablePred bad] in
/-- A presence, which carries no signature. -/
theorem authentic_presence_iff {w' : World K} {relay : K} {connection : ℕ} {identityPub : K}
    (h : Authentic bad w) (hopened : w'.opened = w.opened)
    (haccepted : w'.accepted = w.accepted ++ [⟨relay, connection, fingerprint identityPub, none⟩]) :
    Authentic bad w' ↔ bad identityPub := by
  rw [authentic_accept_iff h hopened haccepted]
  constructor
  · rintro ⟨hsigned, -⟩
    by_contra hk
    obtain ⟨o, -, -, -, -, signature, -, haccept⟩ := hsigned identityPub hk rfl
    cases haccept
  · intro hbad
    refine ⟨fun k hk hf => ?_, fun b hb k hk hf heq => ?_⟩
    · obtain rfl := fingerprint_injective hf
      exact absurd hbad hk
    · obtain ⟨o, -, -, -, -, signature, -, haccept⟩ := h.opened b hb k hk hf
      rw [heq] at haccept
      cases haccept

theorem step_recvRoom {relay : K} {connection : ℕ} (hrelay : ¬ bad relay)
    (hunused : (relay, connection) ∉ w.used) (message : Option (Signal K)) :
    (w.step bad (.recvRoom relay connection message)).opened = w.opened ∧
      (w.step bad (.recvRoom relay connection message)).accepted = w.accepted ++
        (acceptHandshake relay w.next message).1.toOption.toList.map fun accepted =>
          ⟨relay, connection, accepted.fingerprint, message.bind Signal.signature?⟩ := by
  unfold World.step
  dsimp only
  rw [if_neg (not_or.mpr ⟨hrelay, hunused⟩)]
  exact ⟨rfl, rfl⟩

theorem step_recvSignal {relay : K} {connection : ℕ} (hrelay : ¬ bad relay)
    (hunused : (relay, connection) ∉ w.used) (message : Option (Signal K)) :
    (w.step bad (.recvSignal relay connection message)).opened = w.opened ∧
      (w.step bad (.recvSignal relay connection message)).accepted = w.accepted ++
        (registerPresence message).toList.map fun registered =>
          ⟨relay, connection, registered.1, none⟩ := by
  unfold World.step
  dsimp only
  rw [if_neg (not_or.mpr ⟨hrelay, hunused⟩)]
  exact ⟨rfl, rfl⟩

theorem authentic_recvRoom (hsound : Sound bad w) {relay : K} {connection : ℕ}
    {message : Option (Signal K)} (hpossible : Possible bad w (.recvRoom relay connection message))
    (h : Authentic bad w) (hrelay : ¬ bad relay) (hunused : (relay, connection) ∉ w.used) :
    Authentic bad (w.step bad (.recvRoom relay connection message)) ↔
      NoReplay bad w (.recvRoom relay connection message) := by
  obtain ⟨hopened, haccepted⟩ := step_recvRoom hrelay hunused message
  cases acceptHandshake_cases relay w.next message with
  | inl hok =>
      obtain ⟨offer, rfl, hversion, hverify, accepted, hresult, hfingerprint⟩ := hok
      rw [hresult] at haccepted
      rw [authentic_offer_iff hsound h hunused (hpossible _ rfl) hverify hopened
        (hfingerprint ▸ haccepted)]
      constructor
      · rintro hnew - - offer' ⟨⟩ hk - -
        exact hnew hk
      · intro hnew hk
        exact hnew hrelay hunused offer rfl hk hversion hverify
  | inr herror =>
      obtain ⟨⟨error, hresult⟩, hnot⟩ := herror
      rw [hresult] at haccepted
      refine iff_of_true (h.of_opened (fun _ ho => hopened ▸ ho)
        (haccepted.trans (List.append_nil _))) fun _ _ offer hmessage _ hversion hverify => ?_
      rw [hnot offer hmessage hversion] at hverify
      cases hverify

theorem authentic_recvSignal {relay : K} {connection : ℕ} {message : Option (Signal K)}
    (h : Authentic bad w) (hrelay : ¬ bad relay) (hunused : (relay, connection) ∉ w.used) :
    Authentic bad (w.step bad (.recvSignal relay connection message)) ↔
      NoReplay bad w (.recvSignal relay connection message) := by
  obtain ⟨hopened, haccepted⟩ := step_recvSignal hrelay hunused message
  cases hregistered : registerPresence message with
  | none =>
      rw [hregistered] at haccepted
      refine iff_of_true (h.of_opened (fun _ ho => hopened ▸ ho)
        (haccepted.trans (List.append_nil _))) fun _ _ presence hmessage => ?_
      rw [hmessage] at hregistered
      cases hregistered
  | some registered =>
      obtain ⟨presence, rfl⟩ := registerPresence_some hregistered
      rw [authentic_presence_iff h hopened haccepted]
      constructor
      · rintro hbad - - presence' ⟨⟩
        exact hbad
      · exact fun hnew => hnew hrelay hunused presence rfl

theorem authentic_step (hsound : Sound bad w) {event : Event K} (hpossible : Possible bad w event)
    (h : Authentic bad w) : Authentic bad (w.step bad event) ↔ NoReplay bad w event := by
  cases event with
  | openRoom client relay callerAlias videoCodecs =>
      refine iff_of_true ?_ trivial
      unfold World.step
      dsimp only
      split
      · exact h
      · exact h.of_opened (List.subset_append_left _ _) rfl
  | openSignal client relay callerAlias =>
      refine iff_of_true ?_ trivial
      unfold World.step
      dsimp only
      split
      · exact h
      · exact h.of_opened (List.subset_append_left _ _) rfl
  | recvRoom relay connection message =>
      by_cases hskip : bad relay ∨ (relay, connection) ∈ w.used
      · have hstep : w.step bad (.recvRoom relay connection message) = w := if_pos hskip
        rw [hstep]
        exact iff_of_true h fun hrelay hunused => absurd hskip (not_or.mpr ⟨hrelay, hunused⟩)
      · obtain ⟨hrelay, hunused⟩ := not_or.mp hskip
        exact authentic_recvRoom hsound hpossible h hrelay hunused
  | recvSignal relay connection message =>
      by_cases hskip : bad relay ∨ (relay, connection) ∈ w.used
      · have hstep : w.step bad (.recvSignal relay connection message) = w := if_pos hskip
        rw [hstep]
        exact iff_of_true h fun hrelay hunused => absurd hskip (not_or.mpr ⟨hrelay, hunused⟩)
      · obtain ⟨hrelay, hunused⟩ := not_or.mp hskip
        exact authentic_recvSignal h hrelay hunused

/-- In every run that the attacker can bring about, all connections that are taken for
those of honest clients are theirs exactly if no offer of such a client gets to another
connection than the one it was made for, and no presence carries the key of such a client. -/
theorem authentic_iff {es : List (Event K)} (hpossible : EachStep (step bad) (Possible bad) new es) :
    Throughout (step bad) (Authentic bad) new es ↔ EachStep (step bad) (NoReplay bad) new es := by
  have hsound : ∀ (w : World K) event, Sound bad w → Sound bad (w.step bad event) :=
    fun w event h => h.step event
  refine throughout_iff_eachStep_of_eachStep hsound
    (fun w event hw hevent => authentic_step hw hevent) Sound.new hpossible ?_
  exact ⟨fun _ h => absurd h List.not_mem_nil, List.Pairwise.nil⟩

/-- Alice opens a room at a relay, and her offer gets to relay 1. The keys from 2 on are
the attacker's. -/
def offerRun (relay connection : ℕ) : List (Event ℕ) :=
  [.openRoom 0 relay none [],
    .recvRoom 1 connection (some (.callOffer (performHandshake 0 0 none [])))]

theorem offerRun_possible (relay connection : ℕ) :
    EachStep (step fun k => 2 ≤ k) (Possible fun k => 2 ≤ k) new (offerRun relay connection) := by
  refine ⟨trivial, ?_, trivial⟩
  rintro signal ⟨⟩
  exact .known (List.mem_singleton_self _)

theorem genuine_offer_authentic :
    Throughout (step fun k => 2 ≤ k) (Authentic fun k => 2 ≤ k) new (offerRun 1 0) := by
  refine (authentic_iff (offerRun_possible 1 0)).mpr ⟨trivial, fun _ _ offer hoffer => ?_, trivial⟩
  cases hoffer
  rintro - - - o ho - -
  rw [List.mem_singleton.mp ho]
  exact ⟨rfl, rfl⟩

/-- The attacker's relay 2 hands the offer it gets on to relay 1. -/
theorem relayed_offer_accepted :
    EachStep (step fun k => 2 ≤ k) (Possible fun k => 2 ≤ k) new (offerRun 2 7) ∧
      ¬ Throughout (step fun k => 2 ≤ k) (Authentic fun k => 2 ≤ k) new (offerRun 2 7) := by
  refine ⟨offerRun_possible 2 7, fun h => ?_⟩
  have hopened := h.last.opened ⟨1, 7, fingerprint 0, some (.sign 0 (offerData 0))⟩
    (List.mem_singleton_self _) 0 (by decide) rfl
  obtain ⟨o, ho, -, hrelay, -⟩ := hopened
  rw [List.mem_singleton.mp ho] at hrelay
  exact absurd hrelay (by decide)

end World
end Wzp.Relay.Handshake
