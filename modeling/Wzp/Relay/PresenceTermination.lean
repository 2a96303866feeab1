import Wzp.Lib.Flood
import Wzp.Relay.PresenceNetwork

/-!
# When presence flooding ends

The walks an announcement can take. It ends in every schedule if and only if no
such walk is endless.
-/
namespace Wzp.Relay
open FederationManager

section
variable {ι : Type} (sha : Hash) (setup : ι → FederationManager ι) (origin : ι) (event : RoomEvent)

/-- Along `w` the announcement leaves relay `w n` as an active one: a join, or a
leave that has met a relay with participants in the room. -/
def ActiveAt (w : ℕ → ι) (n : ℕ) : Prop :=
  event.isJoin = true ∨ ∃ m, 1 ≤ m ∧ m ≤ n ∧ (setup (w m)).localRoom sha event.room ≠ none

/-- A walk along the links that never turns straight back. Relays that an active
announcement reaches must have the room as a global one. -/
structure EndlessWalk (w : ℕ → ι) : Prop where
  start : w 0 = origin
  linked : ∀ n, w (n + 1) ∈ (setup (w n)).peers
  onward : ∀ n, w (n + 2) ≠ w n
  carried : ∀ n, ActiveAt sha setup event w n →
    (setup (w (n + 1))).isGlobalRoom sha event.room = true

/-- The relay announces the event, and the announcement has an endless walk. -/
def GoesRound : Prop :=
  (setup origin).isGlobalRoom sha event.room = true ∧ ∃ w, EndlessWalk sha setup origin event w

variable {sha setup origin event}

theorem ActiveAt.succ {w : ℕ → ι} {n : ℕ} (h : ActiveAt sha setup event w n) :
    ActiveAt sha setup event w (n + 1) := by
  rcases h with hjoin | ⟨m, hone, hle, hlocal⟩
  · exact Or.inl hjoin
  · exact Or.inr ⟨m, hone, Nat.le_succ_of_le hle, hlocal⟩

/-! ## Endless lines are endless walks -/

/-- The relays a line of tokens visits. -/
def visited (origin : ι) (g : ℕ → Token ι) : ℕ → ι
  | 0 => origin
  | n + 1 => (g n).destination

theorem line_source {b : ι} {active : Bool} {g : ℕ → Token ι} {room : RoomName}
    (hline : TokenGame.Line (Token.Next sha setup room) ⟨origin, b, active⟩ g) (n : ℕ) :
    (g n).source = visited origin g n := by
  cases n with
  | zero => rw [hline.1, visited]
  | succ n => exact (hline.2 n).source

theorem line_active {b : ι} {g : ℕ → Token ι}
    (hline : TokenGame.Line (Token.Next sha setup event.room) ⟨origin, b, event.isJoin⟩ g) {n : ℕ}
    (h : ActiveAt sha setup event (visited origin g) n) : (g n).active = true := by
  induction n with
  | zero =>
      rw [hline.1]
      rcases h with hjoin | ⟨m, hone, hle, -⟩
      · exact hjoin
      · omega
  | succ n ih =>
      by_cases hbefore : ActiveAt sha setup event (visited origin g) n
      · exact (hline.2 n).active (ih hbefore)
      · rcases h with hjoin | ⟨m, hone, hle, hlocal⟩
        · exact absurd (Or.inl hjoin) hbefore
        · -- it became active at the last relay
          have hm : m = n + 1 := by
            by_contra hne
            exact hbefore (Or.inr ⟨m, hone, by omega, hlocal⟩)
          subst hm
          by_contra hinactive
          exact hlocal ((hline.2 n).inactive ((Bool.not_eq_true _).mp hinactive))

theorem endlessWalk_of_line {b : ι} {g : ℕ → Token ι} (hlink : b ∈ (setup origin).peers)
    (hline : TokenGame.Line (Token.Next sha setup event.room) ⟨origin, b, event.isJoin⟩ g) :
    EndlessWalk sha setup origin event (visited origin g) := by
  refine ⟨rfl, ?_, ?_, ?_⟩
  · intro n
    cases n with
    | zero =>
        rw [visited, visited, hline.1]
        exact hlink
    | succ n => exact (hline.2 n).linked
  · intro n
    rw [← line_source hline n]
    exact (hline.2 n).onward
  · intro n hactive
    exact (hline.2 n).isGlobal (line_active hline hactive)

namespace SignalNetwork
variable {net : SignalNetwork ι}

/-- Either event sends one announcement to all peers. -/
theorem dispatchRoomEvent_announces (sha : Hash) (fm : FederationManager ι) (event : RoomEvent) :
    ∃ msg, Announces event.room event.isJoin msg ∧ fm.dispatchRoomEvent sha event =
      if fm.isGlobalRoom sha event.room then fm.peers.map fun fp => (fp, msg) else [] := by
  cases event with
  | localJoin room => exact ⟨_, .active (fm.roomMgr.localParticipantList room), rfl⟩
  | localLeave room => exact ⟨_, .inactive, rfl⟩

/-- Right after the event there are only its announcements. -/
theorem mem_announce (hsetup : net.HasSetup setup) (hquiet : net.inFlight = []) {s : Signal ι}
    (hs : s ∈ (net.announce sha origin event).inFlight) :
    (setup origin).isGlobalRoom sha event.room = true ∧ s.source = origin ∧
      s.destination ∈ (setup origin).peers ∧ Announces event.room event.isJoin s.message := by
  obtain ⟨msg, hmsg, heq⟩ := dispatchRoomEvent_announces sha (setup origin) event
  rw [announce, hquiet, List.nil_append, (hsetup origin).dispatchRoomEvent, heq] at hs
  obtain ⟨⟨fp, m⟩, hmem, rfl⟩ := List.mem_map.mp hs
  split at hmem
  · rename_i hglobal
    obtain ⟨fp', hfp, hpair⟩ := List.mem_map.mp hmem
    obtain ⟨rfl, rfl⟩ := Prod.mk.inj hpair
    exact ⟨hglobal, rfl, hfp, hmsg⟩
  · exact absurd hmem List.not_mem_nil

/-- They are sent to every peer. -/
theorem announce_mem (hglobal : (setup origin).isGlobalRoom sha event.room = true)
    (hsetup : net.HasSetup setup) {b : ι} (hlink : b ∈ (setup origin).peers) :
    ∃ msg, Announces event.room event.isJoin msg ∧
      ⟨origin, b, msg⟩ ∈ (net.announce sha origin event).inFlight := by
  obtain ⟨msg, hmsg, heq⟩ := dispatchRoomEvent_announces sha (setup origin) event
  refine ⟨msg, hmsg, ?_⟩
  rw [announce, (hsetup origin).dispatchRoomEvent, heq, if_pos hglobal, List.map_map]
  exact List.mem_append.mpr (Or.inr (List.mem_map.mpr ⟨b, hlink, rfl⟩))

variable [DecidableEq ι]

theorem terminates_announce (hround : ¬ GoesRound sha setup origin event)
    (hsetup : net.HasSetup setup) (hquiet : net.inFlight = []) :
    (net.announce sha origin event).Terminates sha := by
  have hannouncing : (net.announce sha origin event).Announcing setup event.room :=
    ⟨hsetup, fun s hs => ⟨_, (mem_announce hsetup hquiet hs).2.2.2⟩⟩
  refine terminates_of_no_line hannouncing ?_
  intro s hs g hline
  obtain ⟨hglobal, hsrc, hlink, hmsg⟩ := mem_announce hsetup hquiet hs
  rw [Signal.token, hsrc, hmsg.isActive] at hline
  exact hround ⟨hglobal, _, endlessWalk_of_line hlink hline⟩

/-! ## Endless walks can be followed -/

/-- The announcement is on its way from `w n` to `w (n + 1)`, as an active one
if the walk says so. While it is inactive no relay has heard of anybody. -/
structure OnItsWay (sha : Hash) (setup : ι → FederationManager ι) (event : RoomEvent) (w : ℕ → ι)
    (n : ℕ) (net : SignalNetwork ι) : Prop where
  hasSetup : net.HasSetup setup
  signal : (ActiveAt sha setup event w n ∧
      ∃ ps, ⟨w n, w (n + 1), .globalRoomActive event.room ps⟩ ∈ net.inFlight) ∨
    (⟨w n, w (n + 1), .globalRoomInactive event.room⟩ ∈ net.inFlight ∧
      ∀ i, (net.relays i).NoRemote)

/-- What a relay sends is in flight next. -/
theorem mem_deliver {now : ℕ} {signal : Signal ι} {fp : ι} {msg : SignalMessage ι}
    (h : (fp, msg) ∈ ((net.relays signal.destination).handleSignal sha signal.source now
      signal.message).sends) :
    ⟨signal.destination, fp, msg⟩ ∈ (net.deliver sha now signal).inFlight :=
  List.mem_append.mpr (Or.inr (List.mem_map.mpr ⟨(fp, msg), h, rfl⟩))

/-- The next relay of a walk is one of the other peers. -/
theorem walk_mem_otherPeers {w : ℕ → ι} (hw : EndlessWalk sha setup origin event w)
    (hsetup : net.HasSetup setup) (n : ℕ) :
    w (n + 2) ∈ (net.relays (w (n + 1))).otherPeers (w n) := by
  rw [(hsetup _).otherPeers]
  exact List.mem_filter.mpr ⟨hw.linked (n + 1), decide_eq_true (hw.onward n)⟩

/-- An active announcement goes on, whatever the relays have heard. -/
theorem active_goes_on {w : ℕ → ι} (hw : EndlessWalk sha setup origin event w)
    (hsetup : net.HasSetup setup) {n : ℕ} (hactive : ActiveAt sha setup event w n)
    (ps : List RoomParticipant) (now : ℕ) :
    ∃ ps', ⟨w (n + 1), w (n + 2), .globalRoomActive event.room ps'⟩ ∈
      (net.deliver sha now ⟨w n, w (n + 1), .globalRoomActive event.room ps⟩).inFlight := by
  obtain ⟨tagged, hsends⟩ := sends_active sha (net.relays (w (n + 1))) (w n) now event.room ps
  rw [(hsetup _).isGlobalRoom, if_pos (hw.carried n hactive)] at hsends
  refine ⟨tagged, mem_deliver ?_⟩
  rw [hsends]
  exact List.mem_map.mpr ⟨_, walk_mem_otherPeers hw hsetup n, rfl⟩

theorem onItsWay_step {w : ℕ → ι} (hw : EndlessWalk sha setup origin event w) (n : ℕ)
    (h : OnItsWay sha setup event w n net) :
    ∃ net', Step sha net net' ∧ OnItsWay sha setup event w (n + 1) net' := by
  rcases h.signal with ⟨hactive, ps, hmem⟩ | ⟨hmem, hnone⟩
  · exact ⟨_, .deliver 0 hmem, hasSetup_deliver h.hasSetup sha 0 _,
      Or.inl ⟨hactive.succ, active_goes_on hw h.hasSetup hactive ps 0⟩⟩
  · refine ⟨_, .deliver 0 hmem, hasSetup_deliver h.hasSetup sha 0 _, ?_⟩
    have hnext := walk_mem_otherPeers hw h.hasSetup n
    by_cases hlocal : (setup (w (n + 1))).localRoom sha event.room = none
    · -- nobody is in the room here either
      rw [← (h.hasSetup _).localRoom] at hlocal
      obtain ⟨hsends, hquiet⟩ := sends_inactive_noRemote (hnone _) hlocal (w n) 0
      refine Or.inr ⟨mem_deliver ?_, ?_⟩
      · rw [hsends]
        exact List.mem_map.mpr ⟨_, hnext, rfl⟩
      · intro i
        simp only [deliver]
        by_cases hi : i = w (n + 1)
        · subst hi
          rw [Function.update_self]
          exact hquiet
        · rw [Function.update_of_ne hi]
          exact hnone i
    · obtain ⟨msg, hsends, hkind⟩ :=
        sends_inactive sha (net.relays (w (n + 1))) (w n) 0 event.room
      have hactive : ActiveAt sha setup event w (n + 1) :=
        Or.inr ⟨n + 1, Nat.le_add_left _ _, Nat.le_refl _, hlocal⟩
      rcases hkind with ⟨ps, rfl⟩ | ⟨-, hnolocal⟩
      · refine Or.inl ⟨hactive, ps, mem_deliver ?_⟩
        rw [hsends]
        exact List.mem_map.mpr ⟨_, hnext, rfl⟩
      · rw [(h.hasSetup _).localRoom] at hnolocal
        exact absurd hnolocal hlocal

/-- The federation before any presence. -/
def initial (setup : ι → FederationManager ι) : SignalNetwork ι :=
  { relays := fun i =>
      { setup i with
        peerLinks := (setup i).peerLinks.map fun (fp, link) =>
          (fp, { link with remoteParticipants := fun _ => none })
        links_nodup := by
          rw [List.map_map]
          exact (setup i).links_nodup }
    inFlight := [] }

omit [DecidableEq ι] in
theorem hasSetup_initial (setup : ι → FederationManager ι) : (initial setup).HasSetup setup := by
  intro i
  refine ⟨rfl, rfl, ?_⟩
  rw [peers, peers, initial, List.map_map]
  rfl

omit [DecidableEq ι] in
theorem walk_announce {w : ℕ → ι} (hglobal : (setup origin).isGlobalRoom sha event.room = true)
    (hsetup : net.HasSetup setup) (hw : EndlessWalk sha setup origin event w) :
    ∃ msg, Announces event.room event.isJoin msg ∧
      ⟨w 0, w 1, msg⟩ ∈ (net.announce sha origin event).inFlight := by
  have hlink := hw.linked 0
  rw [hw.start] at hlink ⊢
  exact announce_mem hglobal hsetup hlink

omit [DecidableEq ι] in
theorem onItsWay_announce {w : ℕ → ι} (hglobal : (setup origin).isGlobalRoom sha event.room = true)
    (hw : EndlessWalk sha setup origin event w) :
    OnItsWay sha setup event w 0 ((initial setup).announce sha origin event) := by
  have hsetup := hasSetup_initial setup
  obtain ⟨msg, hmsg, hmem⟩ := walk_announce hglobal hsetup hw
  refine ⟨hsetup, ?_⟩
  generalize hjoin : event.isJoin = join at hmsg
  cases hmsg with
  | active ps => exact Or.inl ⟨Or.inl hjoin, ps, hmem⟩
  | inactive =>
      refine Or.inr ⟨hmem, ?_⟩
      intro i e he r
      obtain ⟨_, _, rfl⟩ := List.mem_map.mp he
      rfl

theorem not_terminates_announce (hround : GoesRound sha setup origin event) :
    ¬ ((initial setup).announce sha origin event).Terminates sha := by
  obtain ⟨hglobal, w, hw⟩ := hround
  obtain ⟨f, hzero, hrun⟩ := TokenGame.endless_run (fun n _ => onItsWay_step hw n)
    (onItsWay_announce hglobal hw)
  intro hends
  obtain ⟨n, hn⟩ := hends f hzero fun n _ => (hrun n).2
  rcases (hrun n).1.signal with ⟨-, _, hmem⟩ | ⟨hmem, -⟩
  · rw [hn] at hmem
    exact List.not_mem_nil hmem
  · rw [hn] at hmem
    exact List.not_mem_nil hmem

/-- A join with an endless walk is in flight after every run, in whatever order
signals are delivered. -/
theorem join_never_ends {w : ℕ → ι} (hw : EndlessWalk sha setup origin event w)
    (hjoin : event.isJoin = true) (hsetup : net.HasSetup setup) {ps : List RoomParticipant}
    (hmem : ⟨w 0, w 1, .globalRoomActive event.room ps⟩ ∈ net.inFlight)
    {net' : SignalNetwork ι} (hrun : Relation.ReflTransGen (Step sha) net net') :
    net'.HasSetup setup ∧
      ∃ n ps, ⟨w n, w (n + 1), .globalRoomActive event.room ps⟩ ∈ net'.inFlight := by
  induction hrun with
  | refl => exact ⟨hsetup, 0, ps, hmem⟩
  | tail _ hstep ih =>
      obtain ⟨hsame, n, ps, hmem⟩ := ih
      cases hstep with
      | @deliver now signal _ =>
          refine ⟨hasSetup_deliver hsame sha now signal, ?_⟩
          by_cases heq : (⟨w n, w (n + 1), .globalRoomActive event.room ps⟩ : Signal ι) = signal
          · subst heq
            obtain ⟨ps', hnext⟩ := active_goes_on hw hsame (Or.inl hjoin) ps now
            exact ⟨n + 1, ps', hnext⟩
          · refine ⟨n, ps, List.mem_append.mpr (Or.inl ?_)⟩
            exact (List.mem_erase_of_ne heq).mpr hmem

theorem join_not_terminates {w : ℕ → ι} (hw : EndlessWalk sha setup origin event w)
    (hjoin : event.isJoin = true) (hglobal : (setup origin).isGlobalRoom sha event.room = true)
    (hsetup : net.HasSetup setup) :
    (∀ net', Relation.ReflTransGen (Step sha) (net.announce sha origin event) net' →
      net'.inFlight ≠ []) ∧ ¬ (net.announce sha origin event).Terminates sha := by
  obtain ⟨msg, hmsg, hmem⟩ := walk_announce hglobal hsetup hw
  rw [hjoin] at hmsg
  cases hmsg with
  | active ps =>
      have hsame : (net.announce sha origin event).HasSetup setup := hsetup
      have hbusy : ∀ net', Relation.ReflTransGen (Step sha) (net.announce sha origin event) net' →
          ∃ signal, signal ∈ net'.inFlight := by
        intro net' hrun
        obtain ⟨-, n, ps', hnext⟩ := join_never_ends hw hjoin hsame hmem hrun
        exact ⟨_, hnext⟩
      refine ⟨fun net' hrun => List.ne_nil_of_mem (hbusy net' hrun).choose_spec, ?_⟩
      obtain ⟨f, hzero, hrun⟩ := TokenGame.endless_of_busy fun net' hrun =>
        (hbusy net' hrun).elim fun _ hsignal => ⟨_, Step.deliver 0 hsignal⟩
      intro hends
      obtain ⟨n, hn⟩ := hends f hzero fun n _ => (hrun n).2
      exact List.ne_nil_of_mem (hbusy (f n) (hrun n).1).choose_spec hn

end SignalNetwork

/-! ## The exact condition -/
variable [DecidableEq ι]

/-- Every schedule that follows a local event ends, whatever the relays have
heard before, if and only if the announcement does not go round. -/
theorem presence_terminates_iff (sha : Hash) (setup : ι → FederationManager ι) (origin : ι)
    (event : RoomEvent) :
    (∀ net : SignalNetwork ι, net.HasSetup setup → net.inFlight = [] →
      (net.announce sha origin event).Terminates sha) ↔ ¬ GoesRound sha setup origin event := by
  constructor
  · intro hends hround
    exact SignalNetwork.not_terminates_announce hround
      (hends _ (SignalNetwork.hasSetup_initial setup) rfl)
  · intro hround net hsetup hquiet
    exact SignalNetwork.terminates_announce hround hsetup hquiet

/-- Without a cycle of peer links every announcement dies out. -/
theorem presence_terminates_of_acyclic [Finite ι] {net : SignalNetwork ι}
    (hacyclic : ∀ i, ¬ Flood.Cycle (fun i j => j ∈ (setup i).peers) Set.univ i)
    (hsetup : net.HasSetup setup) (hquiet : net.inFlight = []) :
    (net.announce sha origin event).Terminates sha := by
  refine SignalNetwork.terminates_announce ?_ hsetup hquiet
  rintro ⟨-, w, hw⟩
  obtain ⟨n, hcycle⟩ := Flood.cycle_of_walk (L := fun i j => j ∈ (setup i).peers) hw.linked hw.onward
  exact hacyclic (w n) hcycle
end

namespace Triangle

/-- Around the triangle for ever. -/
def walk : ℕ → Fin 3
  | 0 => 0
  | n + 1 => walk n + 1

theorem endlessWalk : EndlessWalk sha relay 0 (.localJoin conf) walk := by
  have hlinked : ∀ i : Fin 3, i + 1 ∈ (relay i).peers := by decide
  have honward : ∀ i : Fin 3, i + 1 + 1 ≠ i := by decide
  have hglobal : ∀ i : Fin 3, (relay i).isGlobalRoom sha conf = true := by decide
  exact ⟨rfl, fun n => hlinked (walk n), fun n => honward (walk n), fun n _ => hglobal _⟩

end Triangle

/-- One join in a triangle: signals are in flight after every run, so no
schedule ends. -/
theorem triangle_presence :
    (∀ i j, j ∈ (Triangle.relay i).peers ↔ i ∈ (Triangle.relay j).peers) ∧
      (∀ net, Relation.ReflTransGen (SignalNetwork.Step Triangle.sha)
        ((SignalNetwork.mk Triangle.relay []).announce Triangle.sha 0 (.localJoin Triangle.conf))
        net → net.inFlight ≠ []) ∧
      ¬ ((SignalNetwork.mk Triangle.relay []).announce Triangle.sha 0
        (.localJoin Triangle.conf)).Terminates Triangle.sha := by
  have hsetup : (SignalNetwork.mk Triangle.relay []).HasSetup Triangle.relay :=
    fun _ => ⟨rfl, rfl, rfl⟩
  exact ⟨by decide,
    SignalNetwork.join_not_terminates Triangle.endlessWalk rfl (by decide) hsetup⟩

end Wzp.Relay
