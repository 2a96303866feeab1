import Wzp.Crypto.Session

/-!
# Two sessions of one call

Each side counts its completed rekeys. Nothing is assumed here of what the two
sides do, or of what they receive.
-/
namespace Wzp.Crypto

inductive Party where
  | alice
  | bob
  deriving DecidableEq, Repr

def Party.peer : Party → Party
  | .alice => .bob
  | .bob => .alice

/-- A session and the number of rekeys it has completed. -/
structure Endpoint where
  session : ChaChaSession
  epoch : ℕ := 0

namespace Endpoint
open ChaChaSession

def after (P : Primitives) (x : Endpoint) (e : Effect) : Endpoint :=
  { session := x.session.after P e
    epoch := match e with
      | .rekeyed _ _ => x.epoch + 1
      | _ => x.epoch }

def apply (P : Primitives) (x : Endpoint) (op : Op) : Endpoint :=
  x.after P (x.session.effect P op)

theorem after_epoch_of_traffic (P : Primitives) (x : Endpoint) {e : Effect} (he : e.IsTraffic) :
    (x.after P e).epoch = x.epoch := by
  cases e with
  | nothing => rfl
  | «sealed» header => rfl
  | opened header => rfl
  | armed secret => rfl
  | rekeyed secret peerPub => exact he.elim

end Endpoint

abbrev Call := Party → Endpoint

namespace Call

def step (P : Primitives) (c : Call) (who : Party) (op : ChaChaSession.Op) : Call :=
  Function.update c who ((c who).apply P op)

theorem step_self (P : Primitives) (c : Call) (who : Party) (op : ChaChaSession.Op) :
    c.step P who op who = (c who).apply P op := Function.update_self _ _ _

theorem step_other (P : Primitives) (c : Call) {who p : Party} (hp : p ≠ who)
    (op : ChaChaSession.Op) : c.step P who op p = c p := Function.update_of_ne hp _ _

/-- Both sides derive their session from their own secret and the other's public key. -/
def establish (P : Primitives) (aliceSecret bobSecret : Bytes32) : Except CryptoError Call := do
  let alice ← deriveSession P (some aliceSecret) (P.publicKey bobSecret)
  let bob ← deriveSession P (some bobSecret) (P.publicKey aliceSecret)
  return fun
    | .alice => { session := alice }
    | .bob => { session := bob }

/-- Both sides of a handshake start from the same session. -/
theorem establish_agree {P : Primitives} (hdh : P.DhCommutes) {a b : Bytes32} {c : Call}
    (h : establish P a b = .ok c) (who : Party) : c who = c .alice := by
  rw [establish, ← deriveSession_agree hdh a b] at h
  obtain rfl := Except.ok.inj h
  cases who with
  | alice => rfl
  | bob => rfl

end Call

/-! ## Cipher, key chain and session id agree -/
namespace ChaChaSession

/-- The cipher runs under the manager's key, and the session id is that key's. -/
structure Keyed (P : Primitives) (s : ChaChaSession) : Prop where
  current : s.cipher = s.rekeyMgr.currentKey
  ident : s.sessionId = sessionIdOf P s.cipher

theorem keyed_new (P : Primitives) (key : Bytes32) : (new P key).Keyed P := ⟨rfl, rfl⟩

theorem keyed_after {P : Primitives} {s : ChaChaSession} (h : s.Keyed P) (e : Effect) :
    (s.after P e).Keyed P := by
  cases e with
  | nothing => exact h
  | «sealed» header => exact ⟨h.current, h.ident⟩
  | opened header => exact ⟨h.current, h.ident⟩
  | armed secret => exact ⟨h.current, h.ident⟩
  | rekeyed secret peerPub => exact ⟨rfl, rfl⟩

end ChaChaSession

namespace Call

def Keyed (P : Primitives) (c : Call) : Prop := ∀ who, (c who).session.Keyed P

theorem keyed_establish {P : Primitives} {a b : Bytes32} {c : Call}
    (h : establish P a b = .ok c) : c.Keyed P := by
  obtain rfl := Except.ok.inj h
  intro who
  cases who with
  | alice => exact ⟨rfl, rfl⟩
  | bob => exact ⟨rfl, rfl⟩

theorem keyed_step {P : Primitives} {c : Call} (h : c.Keyed P) (who : Party)
    (op : ChaChaSession.Op) : (c.step P who op).Keyed P := by
  intro p
  by_cases hp : p = who
  · subst hp
    rw [step_self]
    exact ChaChaSession.keyed_after (h p) _
  · rw [step_other P c hp]
    exact h p

end Call
end Wzp.Crypto
