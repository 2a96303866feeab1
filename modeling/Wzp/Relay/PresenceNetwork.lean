import Mathlib.Logic.Hydra
import Mathlib.Order.WellFounded
import Wzp.Relay.Presence

/-!
# Presence flooding

All relays of a federation and the signals between them. A schedule delivers
signals in any order. An announcement dies out in all schedules exactly if it
has no endless walk along the peer links.
-/

/-! ## Tokens that are replaced by their successors

A move takes one token out of a multiset and puts any of its successors in its
place. If no token has an endless line of successors, no sequence of moves is
endless. -/
namespace TokenGame

variable {α : Type*} {next : α → α → Prop}

/-- `next a b` says that `b` is a successor of `a`. -/
def Move (next : α → α → Prop) (s t : Multiset α) : Prop := Relation.CutExpand (flip next) t s

/-- A line of tokens, each a successor of the one before. -/
def Line (next : α → α → Prop) (a : α) (f : ℕ → α) : Prop := f 0 = a ∧ ∀ n, next (f n) (f (n + 1))

theorem acc_of_no_line {a : α} (h : ∀ f, ¬ Line next a f) : Acc (flip next) a := by
  by_contra hacc
  obtain ⟨f, hzero, hnext⟩ := not_acc_iff_exists_descending_chain.mp hacc
  exact h f ⟨hzero, hnext⟩

/-- No endless sequence of moves starts from tokens without endless lines. -/
theorem moves_end (hirrefl : ∀ a, ¬ next a a) {s : ℕ → Multiset α}
    (hline : ∀ a ∈ s 0, ∀ f, ¬ Line next a f) : ¬ ∀ n, Move next (s n) (s (n + 1)) := by
  intro hmoves
  have hflip : Std.Irrefl (flip next) := ⟨hirrefl⟩
  have hacc : Acc (Relation.CutExpand (flip next)) (s 0) :=
    Relation.acc_of_singleton fun a ha => (acc_of_no_line (hline a ha)).cutExpand
  exact not_acc_iff_exists_descending_chain.mpr ⟨s, rfl, hmoves⟩ hacc

/-- A list in which the first token is replaced. -/
theorem move_cons {a : α} {l l' : List α} (h : ∀ b ∈ l', next a b) :
    Move next ((a :: l : List α) : Multiset α) ((l ++ l' : List α) : Multiset α) := by
  refine ⟨l', a, h, ?_⟩
  rw [← Multiset.coe_add, ← Multiset.cons_coe, Multiset.cons_add, ← Multiset.singleton_add, add_comm]

/-! ## Endless runs -/

/-- A property that some step always carries on gives an endless run. -/
theorem endless_run {σ : Type*} {step : σ → σ → Prop} {alive : ℕ → σ → Prop}
    (hstep : ∀ n s, alive n s → ∃ t, step s t ∧ alive (n + 1) t) {s : σ} (hs : alive 0 s) :
    ∃ f : ℕ → σ, f 0 = s ∧ ∀ n, alive n (f n) ∧ step (f n) (f (n + 1)) := by
  let g : (n : ℕ) → {s // alive n s} := fun n => Nat.rec ⟨s, hs⟩
    (fun n p => ⟨(hstep n p.1 p.2).choose, (hstep n p.1 p.2).choose_spec.2⟩) n
  refine ⟨fun n => (g n).1, rfl, fun n => ⟨(g n).2, ?_⟩⟩
  exact (hstep n (g n).1 (g n).2).choose_spec.1

/-- If a run can always be continued, there is an endless one. -/
theorem endless_of_busy {σ : Type*} {step : σ → σ → Prop} {s : σ}
    (hbusy : ∀ t, Relation.ReflTransGen step s t → ∃ u, step t u) :
    ∃ f : ℕ → σ, f 0 = s ∧ ∀ n, Relation.ReflTransGen step s (f n) ∧ step (f n) (f (n + 1)) := by
  apply endless_run
  · intro _ t ht
    obtain ⟨u, hu⟩ := hbusy t ht
    exact ⟨u, hu, ht.tail hu⟩
  · exact Relation.ReflTransGen.refl

end TokenGame

namespace Wzp.Relay
open FederationManager

structure Signal (ι : Type) where
  source : ι
  destination : ι
  message : SignalMessage ι
  deriving DecidableEq

structure SignalNetwork (ι : Type) where
  relays : ι → FederationManager ι
  inFlight : List (Signal ι)

namespace SignalNetwork
variable {ι : Type}

/-- A local join or leave at one relay. -/
def announce (sha : Hash) (net : SignalNetwork ι) (origin : ι) (event : RoomEvent) :
    SignalNetwork ι :=
  { net with
    inFlight := net.inFlight ++ ((net.relays origin).dispatchRoomEvent sha event).map
      fun (fp, msg) => ⟨origin, fp, msg⟩ }

variable [DecidableEq ι]

def deliver (sha : Hash) (net : SignalNetwork ι) (now : ℕ) (signal : Signal ι) : SignalNetwork ι :=
  let r := (net.relays signal.destination).handleSignal sha signal.source now signal.message
  { relays := Function.update net.relays signal.destination r.manager
    inFlight := net.inFlight.erase signal ++
      r.sends.map fun (fp, msg) => ⟨signal.destination, fp, msg⟩ }

/-- Any signal in flight is delivered, at any time. -/
inductive Step (sha : Hash) (net : SignalNetwork ι) : SignalNetwork ι → Prop where
  | deliver (now : ℕ) {signal : Signal ι} (hmem : signal ∈ net.inFlight) :
      Step sha net (net.deliver sha now signal)

/-- Every schedule reaches a state without signals in flight. -/
def Terminates (sha : Hash) (net : SignalNetwork ι) : Prop :=
  ∀ f : ℕ → SignalNetwork ι, f 0 = net →
    (∀ n, (f n).inFlight ≠ [] → Step sha (f n) (f (n + 1))) → ∃ n, (f n).inFlight = []

omit [DecidableEq ι] in
def HasSetup (setup : ι → FederationManager ι) (net : SignalNetwork ι) : Prop :=
  HaveSetup setup net.relays

theorem hasSetup_deliver {setup : ι → FederationManager ι} {net : SignalNetwork ι}
    (h : net.HasSetup setup) (sha : Hash) (now : ℕ) (signal : Signal ι) :
    (net.deliver sha now signal).HasSetup setup :=
  h.update (handleSignal_setup sha _ _ now _)

end SignalNetwork

/-! ## Announcements as tokens -/

/-- A signal in flight that says of one room whether it is active. -/
structure Token (ι : Type) where
  source : ι
  destination : ι
  active : Bool

/-- `msg` announces the room as active or inactive. -/
inductive Announces {ι : Type} (room : RoomName) : Bool → SignalMessage ι → Prop where
  | active (participants : List RoomParticipant) :
      Announces room true (.globalRoomActive room participants)
  | inactive : Announces room false (.globalRoomInactive room)

def SignalMessage.isActive {ι : Type} : SignalMessage ι → Bool
  | .globalRoomActive _ _ => true
  | _ => false

theorem Announces.isActive {ι : Type} {room : RoomName} {active : Bool} {msg : SignalMessage ι}
    (h : Announces room active msg) : msg.isActive = active := by
  cases h with
  | active participants => rfl
  | inactive => rfl

def Signal.token {ι : Type} (s : Signal ι) : Token ι := ⟨s.source, s.destination, s.message.isActive⟩

section tokens
variable {ι : Type} (sha : Hash) (setup : ι → FederationManager ι) (room : RoomName)

/-- What the relay a token has reached may send. Active announcements stay
active and need a global room; inactive ones may stay inactive only at relays
without a local room. -/
structure Token.Next (t t' : Token ι) : Prop where
  source : t'.source = t.destination
  linked : t'.destination ∈ (setup t.destination).peers
  onward : t'.destination ≠ t.source
  isGlobal : t.active = true → (setup t.destination).isGlobalRoom sha room = true
  active : t.active = true → t'.active = true
  inactive : t'.active = false → (setup t.destination).localRoom sha room = none

variable {sha setup room}

theorem Token.next_irrefl (t : Token ι) : ¬ Token.Next sha setup room t t := by
  intro h
  exact h.onward h.source.symm

variable [DecidableEq ι]

/-- All signals a relay sends on an announcement are successors of it. -/
theorem sends_next {fm : FederationManager ι} {source destination : ι} {active : Bool}
    {msg : SignalMessage ι} (hfm : fm.SameSetup (setup destination))
    (hmsg : Announces room active msg) (now : ℕ) {fp : ι} {m : SignalMessage ι}
    (hsend : (fp, m) ∈ (fm.handleSignal sha source now msg).sends) :
    (∃ active', Announces room active' m) ∧
      Token.Next sha setup room ⟨source, destination, active⟩ ⟨destination, fp, m.isActive⟩ := by
  have hpeer : fp ∈ fm.otherPeers source → fp ∈ (setup destination).peers ∧ fp ≠ source := by
    intro hfp
    rw [hfm.otherPeers] at hfp
    obtain ⟨hmem, hne⟩ := List.mem_filter.mp hfp
    exact ⟨hmem, of_decide_eq_true hne⟩
  cases hmsg with
  | active participants =>
      obtain ⟨tagged, heq⟩ := sends_active sha fm source now room participants
      rw [heq] at hsend
      split at hsend
      · rename_i hglobal
        rw [hfm.isGlobalRoom] at hglobal
        obtain ⟨fp', hfp, hpair⟩ := List.mem_map.mp hsend
        obtain ⟨rfl, rfl⟩ := Prod.mk.inj hpair
        obtain ⟨hlinked, honward⟩ := hpeer hfp
        exact ⟨⟨true, .active tagged⟩, rfl, hlinked, honward, fun _ => hglobal, fun _ => rfl, nofun⟩
      · exact absurd hsend List.not_mem_nil
  | inactive =>
      obtain ⟨msg, heq, hkind⟩ := sends_inactive sha fm source now room
      rw [heq] at hsend
      obtain ⟨fp', hfp, hpair⟩ := List.mem_map.mp hsend
      obtain ⟨rfl, rfl⟩ := Prod.mk.inj hpair
      obtain ⟨hlinked, honward⟩ := hpeer hfp
      rcases hkind with ⟨participants, rfl⟩ | ⟨rfl, hlocal⟩
      · exact ⟨⟨true, .active participants⟩, rfl, hlinked, honward, nofun, nofun, nofun⟩
      · rw [hfm.localRoom] at hlocal
        exact ⟨⟨false, .inactive⟩, rfl, hlinked, honward, nofun, nofun, fun _ => hlocal⟩

namespace SignalNetwork

/-- All signals in flight are announcements of the room. -/
structure Announcing (setup : ι → FederationManager ι) (room : RoomName) (net : SignalNetwork ι) :
    Prop where
  setup : net.HasSetup setup
  announces : ∀ s ∈ net.inFlight, ∃ active, Announces room active s.message

def tokens (net : SignalNetwork ι) : Multiset (Token ι) := (net.inFlight.map Signal.token : List _)

/-- A delivery is a move of the token game. -/
theorem announcing_step {net net' : SignalNetwork ι} (h : net.Announcing setup room)
    (hstep : Step sha net net') :
    net'.Announcing setup room ∧
      TokenGame.Move (Token.Next sha setup room) net.tokens net'.tokens := by
  cases hstep with
  | @deliver now signal hmem =>
      obtain ⟨active, hmsg⟩ := h.announces signal hmem
      have hsends : ∀ s ∈ ((net.relays signal.destination).handleSignal sha signal.source now
          signal.message).sends.map (fun p => (⟨signal.destination, p.1, p.2⟩ : Signal ι)),
          (∃ active', Announces room active' s.message) ∧
            Token.Next sha setup room signal.token s.token := by
        intro s hs
        obtain ⟨⟨fp, m⟩, hsend, rfl⟩ := List.mem_map.mp hs
        have hnext := sends_next (h.setup signal.destination) hmsg now hsend
        rw [← hmsg.isActive] at hnext
        exact hnext
      refine ⟨⟨hasSetup_deliver h.setup sha now signal, ?_⟩, ?_⟩
      · intro s hs
        rcases List.mem_append.mp hs with hs | hs
        · exact h.announces s (List.mem_of_mem_erase hs)
        · exact (hsends s hs).1
      · have hold : net.tokens =
            ((signal.token :: (net.inFlight.erase signal).map Signal.token : List _) :
              Multiset (Token ι)) :=
          Multiset.coe_eq_coe.mpr ((List.perm_cons_erase hmem).map Signal.token)
        rw [hold, tokens, deliver, List.map_append]
        apply TokenGame.move_cons
        intro t ht
        obtain ⟨s, hs, rfl⟩ := List.mem_map.mp ht
        exact (hsends s hs).2

/-- Without endless lines of tokens every schedule ends. -/
theorem terminates_of_no_line {net : SignalNetwork ι} (h : net.Announcing setup room)
    (hline : ∀ s ∈ net.inFlight, ∀ f,
      ¬ TokenGame.Line (Token.Next sha setup room) s.token f) : net.Terminates sha := by
  intro f hzero hstep
  by_contra hnever
  have hbusy : ∀ n, (f n).inFlight ≠ [] := fun n hn => hnever ⟨n, hn⟩
  have hrun : ∀ n, (f n).Announcing setup room := by
    intro n
    induction n with
    | zero => exact hzero ▸ h
    | succ n ih => exact (announcing_step ih (hstep n (hbusy n))).1
  refine TokenGame.moves_end Token.next_irrefl ?_ fun n =>
    (announcing_step (hrun n) (hstep n (hbusy n))).2
  intro t ht
  rw [hzero] at ht
  obtain ⟨s, hs, rfl⟩ := List.mem_map.mp (Multiset.mem_coe.mp ht)
  exact hline s hs

end SignalNetwork
end tokens
end Wzp.Relay
