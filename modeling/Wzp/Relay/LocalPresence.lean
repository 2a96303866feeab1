import Mathlib.Data.List.AList
import Wzp.Lib.KeyedSlots
import Wzp.Relay.Rooms

/-!
# Local presence

Signal, room and WebSocket connections register the fingerprint of their client
in one map. Which of them unregister it when they close depends on the kind of
the connection, on authentication and on the way it closes.
-/
namespace Wzp.Relay
open Runs

structure LocalPresence where
  fingerprint : String
  «alias» : Option String
  room : Option RoomName
  deriving DecidableEq, Repr

/-- The fingerprints connected directly to this relay. -/
structure PresenceRegistry where
  «local» : AList fun _ : String => LocalPresence

namespace PresenceRegistry

def registerLocal (reg : PresenceRegistry) (presence : LocalPresence) : PresenceRegistry :=
  ⟨reg.local.insert presence.fingerprint presence⟩

def unregisterLocal (reg : PresenceRegistry) (fp : String) : PresenceRegistry := ⟨reg.local.erase fp⟩

def localFingerprints (reg : PresenceRegistry) : List String := reg.local.keys

end PresenceRegistry

inductive ClientKind where
  | signal
  | room
  | webSocket
  deriving DecidableEq, Repr

/-- A client as a connection shows it: whom its token names, the fingerprint of
its identity key, and the room it asks for. -/
structure Client where
  kind : ClientKind
  tokenFp : String
  identityFp : String
  «alias» : Option String
  room : RoomName
  deriving DecidableEq, Repr

namespace Client

/-- With an authentication service the token decides, without one the key. -/
def participantFp (c : Client) (authUrl : Bool) : String :=
  if authUrl then c.tokenFp else c.identityFp

/-- A WebSocket client has a fingerprint only from its token. -/
def presence (c : Client) (authUrl : Bool) : Option LocalPresence :=
  match c.kind with
  | .signal => some ⟨c.participantFp authUrl, c.alias, none⟩
  | .room => some ⟨c.participantFp authUrl, none, some c.room⟩
  | .webSocket => if authUrl then some ⟨c.tokenFp, none, some c.room⟩ else none

theorem presence_fingerprint {c : Client} {authUrl : Bool} {p : LocalPresence}
    (h : c.presence authUrl = some p) : p.fingerprint = c.participantFp authUrl := by
  unfold presence at h
  split at h
  · obtain rfl := Option.some.inj h
    rfl
  · obtain rfl := Option.some.inj h
    rfl
  · split at h
    · rename_i hauth
      obtain rfl := Option.some.inj h
      exact (if_pos hauth).symm
    · exact absurd h.symm (Option.some_ne_none p)

end Client

/-- How a room connection ends once its presence is registered. -/
inductive RoomExit where
  | forwarded
  | sessionRejected
  | callRoomFull
  | joinDenied
  | disconnected
  deriving DecidableEq, Repr

/-- Whether closing unregisters the fingerprint: a room connection does so only
if it is authenticated and got as far as the room. -/
def Client.unregisters (c : Client) (authUrl : Bool) (exit : RoomExit) : Bool :=
  match c.kind with
  | .signal => true
  | .room => exit = .disconnected && authUrl
  | .webSocket => true

/-- The registry and the open connections that have registered. -/
structure PresenceState (κ : Type) where
  registry : PresenceRegistry
  live : List κ

inductive PresenceEvent (κ : Type) where
  | opened (c : κ)
  | closed (c : κ) (exit : RoomExit)
  deriving DecidableEq, Repr

namespace PresenceState
variable {κ : Type} [DecidableEq κ] (client : κ → Client) (authUrl : Bool)

def empty : PresenceState κ := ⟨⟨∅⟩, []⟩

def step (s : PresenceState κ) : PresenceEvent κ → PresenceState κ
  | .opened c =>
      if c ∈ s.live then s
      else
        match (client c).presence authUrl with
        | some presence => ⟨s.registry.registerLocal presence, c :: s.live⟩
        | none => s
  | .closed c exit =>
      if c ∈ s.live then
        ⟨if (client c).unregisters authUrl exit then
            s.registry.unregisterLocal ((client c).participantFp authUrl)
          else s.registry,
          s.live.filter (· ≠ c)⟩
      else s

/-- The local set is the set of fingerprints with an open connection. -/
def Exact (s : PresenceState κ) : Prop :=
  ∀ fp, fp ∈ s.registry.localFingerprints ↔ ∃ c ∈ s.live, (client c).participantFp authUrl = fp

/-- A connection unregisters its fingerprint exactly if no other connection with
it stays open. -/
def LastUnregisters (s : PresenceState κ) : PresenceEvent κ → Prop
  | .opened _ => True
  | .closed c exit => c ∈ s.live → ((client c).unregisters authUrl exit = true ↔
      ∀ d ∈ s.live, d ≠ c → (client d).participantFp authUrl ≠ (client c).participantFp authUrl)

/-! ## Slots by fingerprint -/

omit [DecidableEq κ] in
def slots (s : PresenceState κ) : KeyedSlots.State String LocalPresence κ :=
  ⟨fun fp => s.registry.local.lookup fp, s.live⟩

omit [DecidableEq κ] in
/-- Connections that do not register play no part. -/
def slotEvent : PresenceEvent κ → KeyedSlots.Event κ
  | .opened c => if ((client c).presence authUrl).isSome then .opened c else .other
  | .closed c exit => .closed c ((client c).unregisters authUrl exit)

variable {client authUrl}

omit [DecidableEq κ] in
theorem exact_iff_covers (s : PresenceState κ) :
    Exact client authUrl s ↔ KeyedSlots.Covers (fun c => (client c).participantFp authUrl) s.slots := by
  apply forall_congr'
  intro fp
  rw [slots, AList.lookup_isSome]
  rfl

theorem slots_step (s : PresenceState κ) (e : PresenceEvent κ) :
    (s.step client authUrl e).slots =
      KeyedSlots.step (fun c => (client c).participantFp authUrl)
        (fun c => ((client c).presence authUrl).getD ⟨"", none, none⟩) s.slots
        (slotEvent client authUrl e) := by
  cases e with
  | opened c =>
      cases hp : (client c).presence authUrl with
      | none =>
          simp only [step, hp, slotEvent, Option.isSome_none, Bool.false_eq_true, if_false,
            KeyedSlots.step, ite_self]
      | some p =>
          simp only [step, hp, slotEvent, Option.isSome_some, if_true]
          by_cases hc : c ∈ s.live
          · rw [if_pos hc]
            exact (if_pos hc).symm
          · simp only [if_neg hc, slots, PresenceRegistry.registerLocal, KeyedSlots.lookup_insert,
              Client.presence_fingerprint hp, KeyedSlots.step, hp, Option.getD_some]
  | closed c exit =>
      by_cases hc : c ∈ s.live
      · rw [step, if_pos hc]
        refine Eq.trans ?_ (if_pos hc).symm
        cases (client c).unregisters authUrl exit with
        | false => rfl
        | true =>
            simp only [slots, if_true, PresenceRegistry.unregisterLocal, KeyedSlots.lookup_erase]
      · rw [step, if_neg hc]
        exact (if_neg hc).symm

theorem exact_step {s : PresenceState κ} (h : Exact client authUrl s) (e : PresenceEvent κ) :
    Exact client authUrl (s.step client authUrl e) ↔ LastUnregisters client authUrl s e := by
  rw [exact_iff_covers] at h ⊢
  rw [slots_step, KeyedSlots.covers_step h]
  cases e with
  | opened c =>
      rw [slotEvent]
      split
      · exact Iff.rfl
      · exact Iff.rfl
  | closed c exit => exact Iff.rfl

variable (client authUrl)

/-- The local set is exact throughout the runs in which each connection that
closes unregisters its fingerprint exactly if it is the last one with it. -/
theorem local_presence_exact_iff (es : List (PresenceEvent κ)) :
    Throughout (step client authUrl) (Exact client authUrl) empty es ↔
      EachStep (step client authUrl) (LastUnregisters client authUrl) empty es := by
  refine throughout_iff_eachStep (I := fun _ => True) (fun _ _ _ _ _ => trivial)
    (fun _ e _ h => exact_step h e) trivial ?_
  intro fp
  constructor
  · intro hmem
    exact absurd hmem List.not_mem_nil
  · rintro ⟨c, hc, _⟩
    exact absurd hc List.not_mem_nil

/-- Without authentication a client leaves its room and stays in the local set. -/
theorem room_client_stays_present :
    ¬ Throughout (step (fun _ : Unit => ⟨.room, "", "alice", none, []⟩) false)
      (Exact (fun _ : Unit => ⟨.room, "", "alice", none, []⟩) false) empty
      [.opened (), .closed () .disconnected] := by
  intro h
  obtain ⟨c, hc, _⟩ := (h.last "alice").mp (by decide)
  exact absurd hc List.not_mem_nil

end PresenceState
end Wzp.Relay
