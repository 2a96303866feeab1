import Wzp.Crypto.AntiReplayRefinement
import Wzp.Crypto.Call

/-!
# Rekey rounds

Each side starts a round by drawing a secret and completes it with the public
key the other side sent in the same round. The key after `n` rounds depends only
on the secrets of those rounds, whatever the order of the calls. The replay
windows know nothing of rounds: what they refuse is what was delivered before.
-/
namespace Wzp.Crypto
open Bytes Proto
open Primitives (zeroKey)

/-- The two endpoints, and the secrets each side has drawn so far. The other
side only ever sees their public keys. -/
structure Exchange where
  call : Call
  drawn : Party → List Bytes32

namespace Exchange
open ChaChaSession

inductive Event where
  | encrypt (who : Party) (headerBytes plaintext : Buf)
  | decrypt (who : Party) (headerBytes ciphertext : Buf)
  | initiate (who : Party) (secret : Bytes32)
  | complete (who : Party)

def act (P : Primitives) (x : Exchange) (who : Party) (op : Op) : Exchange :=
  { x with call := x.call.step P who op }

def draw (x : Exchange) (who : Party) (secret : Bytes32) : Exchange :=
  { x with drawn := Function.update x.drawn who (x.drawn who ++ [secret]) }

theorem act_self (P : Primitives) (x : Exchange) (who : Party) (op : Op) :
    (x.act P who op).call who = (x.call who).apply P op := Call.step_self P x.call who op

theorem act_other (P : Primitives) (x : Exchange) {who p : Party} (hp : p ≠ who) (op : Op) :
    (x.act P who op).call p = x.call p := Call.step_other P x.call hp op

/-- A round is initiated once by each side, and completed by a side that has
initiated it and received the public key of the other. -/
def step (P : Primitives) (x : Exchange) : Event → Option Exchange
  | .encrypt who headerBytes plaintext => some (x.act P who (.encrypt headerBytes plaintext))
  | .decrypt who headerBytes ciphertext => some (x.act P who (.decrypt headerBytes ciphertext))
  | .initiate who secret =>
      if (x.drawn who).length = (x.call who).epoch then
        some ((x.act P who (.initiateRekey secret)).draw who secret)
      else none
  | .complete who =>
      if (x.call who).epoch < (x.drawn who).length then
        (x.drawn who.peer)[(x.call who).epoch]?.map fun secret =>
          x.act P who (.completeRekey (P.publicKey secret))
      else none

def run (P : Primitives) : Exchange → List Event → Option Exchange
  | x, [] => some x
  | x, event :: events => (x.step P event).bind fun y => run P y events

/-- Two sessions with the same key. -/
def start (P : Primitives) (key : Bytes32) : Exchange :=
  { call := fun _ => { session := new P key }
    drawn := fun _ => [] }

/-! ## The key chain -/

def drawnAt (drawn : Party → List Bytes32) (who : Party) (n : ℕ) : Bytes32 :=
  (drawn who)[n]?.getD zeroKey

/-- The key after `n` rounds. -/
def chainKey (P : Primitives) (key : Bytes32) (drawn : Party → List Bytes32) : ℕ → Bytes32
  | 0 => key
  | n + 1 => P.hkdf (some (chainKey P key drawn n))
      (P.diffieHellman (drawnAt drawn .alice n) (P.publicKey (drawnAt drawn .bob n)))
      RekeyManager.rekeyInfo

theorem chainKey_congr {P : Primitives} {key : Bytes32} {d d' : Party → List Bytes32} {n : ℕ}
    (h : ∀ who, ∀ i < n, (d who)[i]? = (d' who)[i]?) : chainKey P key d n = chainKey P key d' n := by
  induction n with
  | zero => rfl
  | succ n ih =>
      have hprev := ih fun who i hi => h who i (Nat.lt_succ_of_lt hi)
      simp only [chainKey, hprev, drawnAt, h _ n (Nat.lt_succ_self n)]

/-- Secrets drawn later do not change the keys of the rounds so far. -/
theorem chainKey_of_drawn {P : Primitives} {key : Bytes32} {d d' : Party → List Bytes32}
    (h : ∀ side, d side <+: d' side) {n : ℕ} (hn : ∀ side, n ≤ (d side).length) :
    chainKey P key d n = chainKey P key d' n := by
  apply chainKey_congr
  intro side i hi
  have hlt : i < (d side).length := hi.trans_le (hn side)
  rw [List.getElem?_eq_getElem hlt]
  exact (List.prefix_iff_getElem?.mp (h side) i hlt).symm

/-- Either side computes the next key of the chain. -/
theorem chainKey_succ {P : Primitives} (hdh : P.DhCommutes) (key : Bytes32)
    (drawn : Party → List Bytes32) (who : Party) (n : ℕ) :
    chainKey P key drawn (n + 1) = P.hkdf (some (chainKey P key drawn n))
      (P.diffieHellman (drawnAt drawn who n) (P.publicKey (drawnAt drawn who.peer n)))
      RekeyManager.rekeyInfo := by
  cases who with
  | alice => rfl
  | bob => rw [chainKey, hdh (drawnAt drawn .alice n)]; rfl

/-- A session runs under the chain key of its epoch and is at most one secret
ahead; both sides have drawn the secrets of the rounds it has completed. -/
structure InStep (P : Primitives) (key : Bytes32) (drawn : Party → List Bytes32) (who : Party)
    (e : Endpoint) : Prop where
  chain : e.session.cipher = chainKey P key drawn e.epoch
  drew : (drawn who).length ≤ e.epoch + 1
  known : ∀ side, e.epoch ≤ (drawn side).length
  pending : e.session.pendingRekeySecret = (drawn who)[e.epoch]?

structure Agreed (P : Primitives) (key : Bytes32) (x : Exchange) : Prop where
  keyed : x.call.Keyed P
  inStep : ∀ who, InStep P key x.drawn who (x.call who)

theorem agreed_start (P : Primitives) (key : Bytes32) : Agreed P key (start P key) :=
  { keyed := fun _ => keyed_new P key
    inStep := fun _ => ⟨rfl, Nat.zero_le _, fun _ => Nat.zero_le _, rfl⟩ }

/-- A call on one side leaves the other one in step. -/
theorem agreed_act {P : Primitives} {key : Bytes32} {x : Exchange} (h : Agreed P key x)
    {who : Party} {op : Op} (hself : InStep P key x.drawn who ((x.call who).apply P op)) :
    Agreed P key (x.act P who op) := by
  refine ⟨Call.keyed_step h.keyed who op, ?_⟩
  intro p
  by_cases hp : p = who
  · subst hp
    rw [act_self]
    exact hself
  · rw [act_other P x hp]
    exact h.inStep p

theorem agreed_traffic {P : Primitives} {key : Bytes32} {x : Exchange} (h : Agreed P key x)
    (who : Party) (op : Op) (ht : ((x.call who).session.effect P op).IsTraffic) :
    Agreed P key (x.act P who op) := by
  obtain ⟨hcipher, _, hpending⟩ := after_traffic P (x.call who).session ht
  have hepoch := Endpoint.after_epoch_of_traffic P (x.call who) ht
  obtain ⟨hchain, hdrew, hknown, hpend⟩ := h.inStep who
  apply agreed_act h
  rw [Endpoint.apply]
  refine ⟨?_, ?_, ?_, ?_⟩
  · rw [hepoch]
    exact hcipher.trans hchain
  · rw [hepoch]
    exact hdrew
  · rw [hepoch]
    exact hknown
  · rw [hepoch]
    exact hpending.trans hpend

theorem drawn_grows (drawn : Party → List Bytes32) (who : Party) (secret : Bytes32)
    (side : Party) : drawn side <+: Function.update drawn who (drawn who ++ [secret]) side := by
  by_cases hs : side = who
  · subst hs
    rw [Function.update_self]
    exact List.prefix_append _ _
  · simp only [Function.update_of_ne hs, List.prefix_refl]

theorem agreed_initiate {P : Primitives} {key : Bytes32} {x : Exchange} (h : Agreed P key x)
    {who : Party} (hround : (x.drawn who).length = (x.call who).epoch) (secret : Bytes32) :
    Agreed P key ((x.act P who (.initiateRekey secret)).draw who secret) := by
  have hgrow := drawn_grows x.drawn who secret
  refine ⟨Call.keyed_step h.keyed who _, ?_⟩
  intro p
  obtain ⟨hchain, hdrew, hknown, hpend⟩ := h.inStep p
  have hchain' := hchain.trans (chainKey_of_drawn hgrow hknown)
  have hknown' := fun side => (hknown side).trans (hgrow side).length_le
  simp only [draw, act]
  by_cases hp : p = who
  · subst hp
    rw [Call.step_self]
    refine ⟨hchain', ?_, hknown', ?_⟩
    · rw [Function.update_self, List.length_append, hround]
      exact Nat.le_refl _
    · have hlast : (x.drawn p ++ [secret])[(x.call p).epoch]? = some secret := by
        rw [← hround, List.getElem?_concat_length]
      rw [Function.update_self]
      exact hlast.symm
  · rw [Call.step_other P x.call hp]
    refine ⟨hchain', ?_, hknown', ?_⟩
    · rw [Function.update_of_ne hp]
      exact hdrew
    · rw [Function.update_of_ne hp]
      exact hpend

theorem agreed_complete {P : Primitives} (hdh : P.DhCommutes) {key : Bytes32} {x : Exchange}
    (h : Agreed P key x) {who : Party} (hown : (x.call who).epoch < (x.drawn who).length)
    {secret : Bytes32} (hpeer : (x.drawn who.peer)[(x.call who).epoch]? = some secret) :
    Agreed P key (x.act P who (.completeRekey (P.publicKey secret))) := by
  obtain ⟨hchain, hdrew, _, hpending⟩ := h.inStep who
  have hlen : (x.drawn who).length = (x.call who).epoch + 1 := Nat.le_antisymm hdrew hown
  obtain ⟨own, hdrawn⟩ : ∃ own, (x.drawn who)[(x.call who).epoch]? = some own :=
    ⟨_, List.getElem?_eq_getElem hown⟩
  have hself : (x.call who).apply P (.completeRekey (P.publicKey secret)) =
      ⟨(x.call who).session.rekeyed P own (P.publicKey secret), (x.call who).epoch + 1⟩ := by
    rw [Endpoint.apply, effect, hpending.trans hdrawn]
    rfl
  have hpeerlen : (x.call who).epoch < (x.drawn who.peer).length :=
    (List.getElem?_eq_some_iff.mp hpeer).1
  apply agreed_act h
  rw [hself]
  refine ⟨?_, hlen.trans_le (Nat.le_succ _), ?_, ?_⟩
  · -- both sides mix the same shared secret into the same key
    change (x.call who).session.nextKey P own (P.publicKey secret) = _
    rw [chainKey_succ hdh key x.drawn who, drawnAt, drawnAt, hdrawn, hpeer, nextKey,
      ← (h.keyed who).current, hchain]
    rfl
  · intro side
    cases side <;> cases who <;> first | exact hown | exact hpeerlen
  · rw [List.getElem?_eq_none (Nat.le_of_eq hlen)]
    rfl

theorem agreed_step {P : Primitives} (hdh : P.DhCommutes) {key : Bytes32} {x y : Exchange}
    (h : Agreed P key x) {event : Event} (hstep : x.step P event = some y) : Agreed P key y := by
  cases event with
  | encrypt who headerBytes plaintext =>
      obtain rfl := Option.some.inj hstep
      exact agreed_traffic h who _ (effect_encrypt_traffic P _ _ _)
  | decrypt who headerBytes ciphertext =>
      obtain rfl := Option.some.inj hstep
      exact agreed_traffic h who _ (effect_decrypt_traffic P _ _ _)
  | initiate who secret =>
      rw [step, Option.ite_none_right_eq_some] at hstep
      obtain ⟨hround, hy⟩ := hstep
      obtain rfl := Option.some.inj hy
      exact agreed_initiate h hround secret
  | complete who =>
      rw [step, Option.ite_none_right_eq_some, Option.map_eq_some_iff] at hstep
      obtain ⟨hown, secret, hpeer, rfl⟩ := hstep
      exact agreed_complete hdh h hown hpeer

theorem agreed_run {P : Primitives} (hdh : P.DhCommutes) {key : Bytes32} {x y : Exchange}
    (h : Agreed P key x) {events : List Event} (hrun : run P x events = some y) :
    Agreed P key y := by
  induction events generalizing x with
  | nil =>
      obtain rfl := Option.some.inj hrun
      exact h
  | cons event events ih =>
      obtain ⟨z, hz, hrest⟩ := Option.bind_eq_some_iff.mp hrun
      exact ih (agreed_step hdh h hz) hrest

/-! ## Packets sealed in one epoch and opened in the same epoch -/

theorem drawn_step {P : Primitives} {x y : Exchange} {event : Event}
    (hstep : x.step P event = some y) (side : Party) : x.drawn side <+: y.drawn side := by
  cases event with
  | encrypt who headerBytes plaintext =>
      obtain rfl := Option.some.inj hstep
      exact List.prefix_refl _
  | decrypt who headerBytes ciphertext =>
      obtain rfl := Option.some.inj hstep
      exact List.prefix_refl _
  | initiate who secret =>
      rw [step, Option.ite_none_right_eq_some] at hstep
      obtain rfl := Option.some.inj hstep.2
      exact drawn_grows x.drawn who secret side
  | complete who =>
      rw [step, Option.ite_none_right_eq_some, Option.map_eq_some_iff] at hstep
      obtain ⟨_, secret, _, rfl⟩ := hstep
      exact List.prefix_refl _

theorem drawn_run {P : Primitives} {x y : Exchange} {events : List Event}
    (hrun : run P x events = some y) (side : Party) : x.drawn side <+: y.drawn side := by
  induction events generalizing x with
  | nil =>
      obtain rfl := Option.some.inj hrun
      exact List.prefix_refl _
  | cons event events ih =>
      obtain ⟨z, hz, hrest⟩ := Option.bind_eq_some_iff.mp hrun
      exact (drawn_step hz side).trans (ih hrest)

/-- Keys of equal epochs are equal, also across the two states of a run. -/
theorem cipher_eq {P : Primitives} {key : Bytes32} {x y : Exchange} (hx : Agreed P key x)
    (hy : Agreed P key y) (hdrawn : ∀ side, x.drawn side <+: y.drawn side) {p q : Party}
    (hepoch : (y.call q).epoch = (x.call p).epoch) :
    (y.call q).session.cipher = (x.call p).session.cipher ∧
      (y.call q).session.sessionId = (x.call p).session.sessionId := by
  have hcipher : (y.call q).session.cipher = (x.call p).session.cipher := by
    rw [(hy.inStep q).chain, (hx.inStep p).chain, hepoch]
    exact (chainKey_of_drawn hdrawn (hx.inStep p).known).symm
  refine ⟨hcipher, ?_⟩
  rw [(hy.keyed q).ident, (hx.keyed p).ident, hcipher]

/-! ## What a side has been delivered -/

/-- The numbers a step delivers to `who` on a stream. -/
def handed (P : Primitives) (who : Party) (stream : UInt8 × MediaType) (x : Exchange) :
    Event → List UInt32
  | .decrypt p headerBytes ciphertext =>
      match parseHeader headerBytes, ((x.call p).session.decrypt P headerBytes ciphertext []).1 with
      | some header, .ok () => if p = who ∧ streamOf header = stream then [header.seq] else []
      | _, _ => []
  | _ => []

/-- The numbers of the packets delivered to `who` on a stream, in the order of
their delivery. -/
def delivered (P : Primitives) (who : Party) (stream : UInt8 × MediaType) :
    Exchange → List Event → List UInt32
  | _, [] => []
  | x, event :: events =>
      handed P who stream x event ++
        (x.step P event).elim [] fun y => delivered P who stream y events

/-- The deliveries of each side and stream. -/
abbrev Deliveries := Party → UInt8 × MediaType → List UInt32

/-- Every window stands for the numbers delivered on its stream. -/
def Recorded (x : Exchange) (numbers : Deliveries) : Prop :=
  ∀ who header, ((x.call who).session.windowOf header).Refines
      (.ofDelivered (numbers who (streamOf header))) ∧
    ((x.call who).session.windowOf header).windowSize.toNat =
      (defaultWindowSize header.mediaType).toNat

theorem recorded_start (P : Primitives) (key : Bytes32) :
    Recorded (start P key) fun _ _ => [] := by
  intro who header
  have hsize : (defaultWindowSize header.mediaType).toNat % 2 ^ 32 =
      (defaultWindowSize header.mediaType).toNat := by
    cases header.mediaType <;> rfl
  refine ⟨AntiReplayWindow.withWindow_refines ?_ ?_, ?_⟩
  · cases header.mediaType <;> decide
  · cases header.mediaType <;> decide
  · exact (AntiReplayWindow.withWindow_windowSize _).trans hsize

/-- The windows a step leaves alone stand for the same deliveries. -/
theorem Recorded.of_windows {x y : Exchange} {numbers numbers' : Deliveries}
    (h : Recorded x numbers)
    (hwindows : ∀ who, (y.call who).session.antiReplay = (x.call who).session.antiReplay)
    (hnumbers : ∀ who stream, numbers' who stream = numbers who stream) :
    Recorded y numbers' := by
  intro who header
  rw [windowOf, hwindows, hnumbers]
  exact h who header

/-- Only an opened packet reaches a window. -/
theorem after_antiReplay (P : Primitives) (s : ChaChaSession) {e : Effect}
    (he : ∀ header, e ≠ .opened header) : (s.after P e).antiReplay = s.antiReplay := by
  cases e with
  | opened header => exact absurd rfl (he header)
  | nothing => rfl
  | «sealed» header => rfl
  | armed secret => rfl
  | rekeyed secret peerPub => rfl

theorem act_antiReplay {P : Primitives} (x : Exchange) (who : Party) {op : Op}
    (hop : ∀ header, (x.call who).session.effect P op ≠ .opened header) (p : Party) :
    ((x.act P who op).call p).session.antiReplay = (x.call p).session.antiReplay := by
  by_cases hp : p = who
  · subst hp
    rw [act_self]
    exact after_antiReplay P _ hop
  · rw [act_other P x hp]

theorem effect_encrypt_ne_opened (P : Primitives) (s : ChaChaSession)
    (headerBytes plaintext : Buf) (header : MediaHeader) :
    s.effect P (.encrypt headerBytes plaintext) ≠ .opened header := by
  rw [effect]
  split
  · exact Effect.noConfusion
  · split <;> exact Effect.noConfusion

theorem effect_completeRekey_ne_opened (P : Primitives) (s : ChaChaSession) (peerPub : Bytes32)
    (header : MediaHeader) : s.effect P (.completeRekey peerPub) ≠ .opened header := by
  rw [effect]
  cases s.pendingRekeySecret <;> exact Effect.noConfusion

/-- An authentic packet is delivered exactly when its number is fresh. -/
theorem Recorded.checkAndUpdate {x : Exchange} {numbers : Deliveries} (h : Recorded x numbers)
    (who : Party) (header : MediaHeader) :
    let past := ReplayReference.ofDelivered (numbers who (streamOf header))
    let window := (x.call who).session.windowOf header
    (past.Fresh (defaultWindowSize header.mediaType).toNat header.seq →
      (window.checkAndUpdate header.seq).1 = .ok () ∧
        (window.checkAndUpdate header.seq).2.Refines (past.record header.seq)) ∧
    (¬ past.Fresh (defaultWindowSize header.mediaType).toNat header.seq →
      (window.checkAndUpdate header.seq).1 = .error (.replayDetected header.seq) ∧
        (window.checkAndUpdate header.seq).2.Refines past) := by
  intro past window
  obtain ⟨hrefines, hsize⟩ := h who header
  obtain ⟨hresult, _, hnext⟩ := AntiReplayWindow.checkAndUpdate_refines hrefines header.seq
  rw [hsize] at hresult hnext
  constructor
  · intro hfresh
    obtain ⟨e, hcheck⟩ := ReplayReference.check_fresh hfresh
    rw [hcheck] at hresult hnext
    exact ⟨hresult, hnext⟩
  · intro hstale
    have hcheck := ReplayReference.check_stale hrefines.bounded hstale
    rw [hcheck] at hresult hnext
    exact ⟨hresult, hnext⟩

theorem handed_elsewhere {P : Primitives} {p who : Party} {stream : UInt8 × MediaType}
    {x : Exchange} {headerBytes ciphertext : Buf} {header : MediaHeader}
    (hparse : parseHeader headerBytes = some header)
    (helse : ¬ (who = p ∧ streamOf header = stream)) :
    handed P p stream x (.decrypt who headerBytes ciphertext) = [] := by
  rw [handed, hparse]
  cases ((x.call who).session.decrypt P headerBytes ciphertext []).1 with
  | ok _ => exact if_neg helse
  | error e => rfl

/-- An authentic packet extends the deliveries of its own stream if it is delivered. -/
theorem recorded_received {P : Primitives} {x : Exchange} {numbers : Deliveries}
    (h : Recorded x numbers) {who : Party} {headerBytes ciphertext plaintext : Buf}
    {header : MediaHeader} (hparse : parseHeader headerBytes = some header)
    (hopen : P.aeadOpen (x.call who).session.cipher ((x.call who).session.nonceFor header)
      headerBytes ciphertext = some plaintext) :
    Recorded (x.act P who (.decrypt headerBytes ciphertext)) fun p stream =>
      numbers p stream ++ handed P p stream x (.decrypt who headerBytes ciphertext) := by
  obtain ⟨hfresh, hstale⟩ := h.checkAndUpdate who header
  have hsession : ((x.act P who (.decrypt headerBytes ciphertext)).call who).session =
      (x.call who).session.received header := by
    rw [act_self, Endpoint.apply, effect, hparse]
    simp only [hopen, Option.isSome_some, if_true]
    rfl
  have hresult := congrArg Prod.fst (@decrypt_authentic _ _ _ [] _ _ _ hparse hopen)
  intro p g
  beta_reduce
  by_cases hp : p = who
  · subst hp
    rw [hsession]
    by_cases hstream : streamOf g = streamOf header
    · -- the window of this stream has just been used
      have hmedia : g.mediaType = header.mediaType := congrArg Prod.snd hstream
      have hold : (x.call p).session.windowOf g = (x.call p).session.windowOf header := by
        rw [windowOf, windowOf, hstream, hmedia]
      have hwindow : ((x.call p).session.received header).windowOf g =
          (((x.call p).session.windowOf header).checkAndUpdate header.seq).2 := by
        rw [windowOf, hstream, received_antiReplay_self, Option.getD_some]
      obtain ⟨hrefines, hsize⟩ := h p header
      obtain ⟨_, hkept, _⟩ := AntiReplayWindow.checkAndUpdate_refines hrefines header.seq
      rw [hwindow, hmedia, hkept, hsize, hstream]
      refine ⟨?_, rfl⟩
      by_cases hnew : (ReplayReference.ofDelivered (numbers p (streamOf header))).Fresh
          (defaultWindowSize header.mediaType).toNat header.seq
      · have hhanded : handed P p (streamOf header) x (.decrypt p headerBytes ciphertext) =
            [header.seq] := by
          simp only [handed, hparse, hresult, (hfresh hnew).1, and_self, if_true]
        rw [hhanded, ReplayReference.ofDelivered_concat]
        exact (hfresh hnew).2
      · have hhanded : handed P p (streamOf header) x (.decrypt p headerBytes ciphertext) = [] := by
          simp only [handed, hparse, hresult, (hstale hnew).1]
        rw [hhanded, List.append_nil]
        exact (hstale hnew).2
    · have helse : ¬ (p = p ∧ streamOf header = streamOf g) := fun hc => hstream hc.2.symm
      rw [handed_elsewhere hparse helse, List.append_nil, windowOf, received_antiReplay_other _ _ hstream]
      exact h p g
  · have helse : ¬ (who = p ∧ streamOf header = streamOf g) := fun hc => hp hc.1.symm
    rw [handed_elsewhere hparse helse, List.append_nil, act_other P x hp]
    exact h p g

theorem recorded_step {P : Primitives} {x y : Exchange} {numbers : Deliveries}
    (h : Recorded x numbers) {event : Event} (hstep : x.step P event = some y) :
    Recorded y fun p stream => numbers p stream ++ handed P p stream x event := by
  cases event with
  | encrypt who headerBytes plaintext =>
      obtain rfl := Option.some.inj hstep
      exact h.of_windows (act_antiReplay x who (effect_encrypt_ne_opened P _ _ _))
        fun _ _ => List.append_nil _
  | decrypt who headerBytes ciphertext =>
      obtain rfl := Option.some.inj hstep
      cases hparse : parseHeader headerBytes with
      | none =>
          refine h.of_windows (act_antiReplay x who ?_) ?_
          · intro header
            simp only [effect, hparse, ne_eq, reduceCtorEq, not_false_eq_true]
          · intro p stream
            simp only [handed, hparse, List.append_nil]
      | some header =>
          cases hopen : P.aeadOpen (x.call who).session.cipher
              ((x.call who).session.nonceFor header) headerBytes ciphertext with
          | none =>
              refine h.of_windows (act_antiReplay x who ?_) ?_
              · intro other
                simp only [effect, hparse, hopen, Option.isSome_none, Bool.false_eq_true, if_false,
                  ne_eq, reduceCtorEq, not_false_eq_true]
              · intro p stream
                simp only [handed, decrypt, hparse, hopen, List.append_nil]
          | some plaintext => exact recorded_received h hparse hopen
  | initiate who secret =>
      rw [step, Option.ite_none_right_eq_some] at hstep
      obtain rfl := Option.some.inj hstep.2
      exact h.of_windows (act_antiReplay x who fun _ => Effect.noConfusion)
        fun _ _ => List.append_nil _
  | complete who =>
      rw [step, Option.ite_none_right_eq_some, Option.map_eq_some_iff] at hstep
      obtain ⟨_, secret, _, rfl⟩ := hstep
      exact h.of_windows (act_antiReplay x who (effect_completeRekey_ne_opened P _ _))
        fun _ _ => List.append_nil _

theorem recorded_run {P : Primitives} {x y : Exchange} {numbers : Deliveries}
    (h : Recorded x numbers) {events : List Event} (hrun : run P x events = some y) :
    Recorded y fun p stream => numbers p stream ++ delivered P p stream x events := by
  induction events generalizing x numbers with
  | nil =>
      obtain rfl := Option.some.inj hrun
      simpa only [delivered, List.append_nil] using h
  | cons event events ih =>
      obtain ⟨z, hz, hrest⟩ := Option.bind_eq_some_iff.mp hrun
      have hy := ih (recorded_step h hz) hrest
      simpa only [delivered, hz, Option.elim_some, List.append_assoc] using hy

theorem run_append {P : Primitives} {x y : Exchange} {events : List Event}
    (hrun : run P x events = some y) (later : List Event) :
    run P x (events ++ later) = run P y later := by
  induction events generalizing x with
  | nil =>
      obtain rfl := Option.some.inj hrun
      rfl
  | cons event events ih =>
      obtain ⟨z, hz, hrest⟩ := Option.bind_eq_some_iff.mp hrun
      rw [List.cons_append, run, hz]
      exact ih hrest

/-- A packet sealed by one side and opened by the other in the same epoch
authenticates; the window of the opener alone decides what becomes of it. -/
theorem decrypt_same_epoch {P : Primitives} (haead : P.AeadCorrect) {s t : ChaChaSession}
    (hcipher : t.cipher = s.cipher) (hid : t.sessionId = s.sessionId) {headerBytes plaintext : Buf}
    (hok : (s.encrypt P headerBytes plaintext []).1 = .ok ()) (out : Buf) :
    ∃ header, parseHeader headerBytes = some header ∧
      t.decrypt P headerBytes (s.encrypt P headerBytes plaintext []).2.2 out =
        (((t.windowOf header).checkAndUpdate header.seq).1, t.received header,
          match ((t.windowOf header).checkAndUpdate header.seq).1 with
          | .ok () => out ++ plaintext
          | .error _ => out) := by
  rcases encrypt_cases P s headerBytes plaintext [] with ⟨header, ct, hparse, hseal, heq⟩ | ⟨e, heq⟩
  · refine ⟨header, hparse, ?_⟩
    rw [heq, List.nil_append]
    have hopen : P.aeadOpen t.cipher (t.nonceFor header) headerBytes ct = some plaintext := by
      rw [hcipher, nonceFor, hid]
      exact haead _ _ _ _ _ hseal
    exact decrypt_authentic hparse hopen
  · rw [heq] at hok
    exact nomatch hok

/-- In every state reached through encrypts, decrypts and rekey rounds: the
cipher is the manager's current key; after the same number of rounds both sides
hold the same key and session id; and a packet then sealed by one side, opened
by the other before its next rekey, yields the plaintext if its number was not
delivered there on its stream and is less than the window behind the highest
one that was, and is refused as a replay if not. -/
theorem rekey_agreement {P : Primitives} (hdh : P.DhCommutes) (haead : P.AeadCorrect)
    (key : Bytes32) (events : List Event) {x : Exchange}
    (hrun : run P (start P key) events = some x) :
    (∀ who, (x.call who).session.cipher = (x.call who).session.rekeyMgr.currentKey) ∧
    ((x.call .alice).epoch = (x.call .bob).epoch →
      (x.call .alice).session.cipher = (x.call .bob).session.cipher ∧
        (x.call .alice).session.sessionId = (x.call .bob).session.sessionId) ∧
    ∀ who headerBytes plaintext,
      ((x.call who).session.encrypt P headerBytes plaintext []).1 = .ok () →
      ∀ later y, run P x (.encrypt who headerBytes plaintext :: later) = some y →
      (y.call who.peer).epoch = (x.call who).epoch → ∀ out,
      ∃ header, parseHeader headerBytes = some header ∧
        let past := ReplayReference.ofDelivered (delivered P who.peer (streamOf header)
          (start P key) (events ++ .encrypt who headerBytes plaintext :: later))
        let fresh := past.Fresh (defaultWindowSize header.mediaType).toNat header.seq
        let result := (y.call who.peer).session.decrypt P headerBytes
          ((x.call who).session.encrypt P headerBytes plaintext []).2.2 out
        (fresh → result.1 = .ok () ∧ result.2.2 = out ++ plaintext) ∧
        (¬ fresh → result.1 = .error (.replayDetected header.seq) ∧ result.2.2 = out) := by
  have hx := agreed_run hdh (agreed_start P key) hrun
  refine ⟨fun who => (hx.keyed who).current, ?_, ?_⟩
  · intro hepoch
    exact cipher_eq hx hx (fun _ => List.prefix_refl _) hepoch
  · intro who headerBytes plaintext hok later y hlater hepoch out
    have hy := agreed_run hdh hx hlater
    obtain ⟨hcipher, hid⟩ := cipher_eq hx hy (fun side => drawn_run hlater side) hepoch
    obtain ⟨header, hparse, hresult⟩ := decrypt_same_epoch haead hcipher hid hok out
    have hrecorded := recorded_run (recorded_start P key)
      ((run_append hrun (.encrypt who headerBytes plaintext :: later)).trans hlater)
    obtain ⟨hfresh, hstale⟩ := hrecorded.checkAndUpdate who.peer header
    simp only [List.nil_append] at hfresh hstale
    refine ⟨header, hparse, ?_⟩
    simp only [hresult]
    constructor
    · intro hnew
      rw [(hfresh hnew).1]
      exact ⟨rfl, rfl⟩
    · intro hold
      rw [(hstale hold).1]
      exact ⟨rfl, rfl⟩

/-- One round; Bob completes it first. -/
def sampleRound : List Event :=
  [.initiate .alice zeroKey, .initiate .bob zeroKey, .complete .bob, .complete .alice]

/-- A packet sealed and delivered before the round. -/
def trafficThenRound : List Event :=
  .encrypt .alice sampleHeader.writeTo [] ::
    .decrypt .bob sampleHeader.writeTo (((start .tagged zeroKey).call .alice).session.encrypt
      .tagged sampleHeader.writeTo [] []).2.2 :: sampleRound

def nextHeader : MediaHeader := { sampleHeader with seq := 1 }

/-- Packet 0 comes before the round, packet 1 is sealed after it and delivered. -/
theorem rekey_agreement_trafficThenRound :
    ∃ x, run .tagged (start .tagged zeroKey) trafficThenRound = some x ∧
      (x.call .alice).session.cipher = (x.call .bob).session.cipher ∧
      (((x.call .bob).session.decrypt .tagged nextHeader.writeTo
        ((x.call .alice).session.encrypt .tagged nextHeader.writeTo [7] []).2.2 []).1 = .ok ()) ∧
      ((x.call .bob).session.decrypt .tagged nextHeader.writeTo
        ((x.call .alice).session.encrypt .tagged nextHeader.writeTo [7] []).2.2 []).2.2 = [7] := by
  obtain ⟨_, hkeys, hpackets⟩ := rekey_agreement Primitives.tagged_dhCommutes
    Primitives.tagged_aeadCorrect zeroKey trafficThenRound rfl
  obtain ⟨header, hparse, hfresh, _⟩ := hpackets .alice nextHeader.writeTo [7] rfl [] _ rfl rfl []
  obtain rfl := Option.some.inj hparse
  refine ⟨_, rfl, (hkeys rfl).1, hfresh ?_⟩
  intro h hh
  obtain rfl := Option.some.inj hh
  decide

/-- A sender that restarts its numbers after a completed round is refused: the
receiver's window still holds the number from before. -/
theorem rekey_keeps_windows : ¬ ∀ (P : Primitives), P.DhCommutes → P.AeadCorrect →
    ∀ (key : Bytes32) (events : List Event) (x : Exchange),
    run P (start P key) events = some x → ∀ who headerBytes plaintext,
    1 ≤ (x.call who).epoch → (x.call who.peer).epoch = (x.call who).epoch →
    ((x.call who).session.encrypt P headerBytes plaintext []).1 = .ok () →
    ((x.call who.peer).session.decrypt P headerBytes
      ((x.call who).session.encrypt P headerBytes plaintext []).2.2 []).1 = .ok () := by
  intro h
  have hok := h .tagged Primitives.tagged_dhCommutes Primitives.tagged_aeadCorrect zeroKey
    trafficThenRound _ rfl .alice sampleHeader.writeTo [] (by decide) rfl rfl
  revert hok
  decide

end Exchange
end Wzp.Crypto
