import Mathlib.Algebra.GroupWithZero.Nat
import Wzp.Relay.RoomLifecycle

/-!
# Delivery of federated media to local rooms

A datagram names its room by the hash of the global room's canonical name.
Local clients may be in several rooms that resolve to that name, under the name
itself and under its hashed alias; the lookup yields one of them.
-/
namespace Wzp.Relay
open Bytes Proto

namespace FederationManager
variable {ι : Type}

/-- The local rooms that are the global room `g`. -/
def roomsOf (sha : Hash) (fm : FederationManager ι) (g : RoomName) : List RoomName :=
  fm.roomMgr.activeRooms.filter fun r => fm.resolveGlobalRoom sha r = some g

/-- Every participant of every such room, with what it should be sent. -/
def expectedDelivery (sha : Hash) (fm : FederationManager ι) (g : RoomName) (media : Buf)
    (pkt : MediaPacket) : List (ParticipantId × Buf) :=
  (fm.roomsOf sha g).flatMap fun r =>
    (fm.roomMgr.localSenders r).map fun p => (p.id, federatedBytes media pkt p)

/-- The room hash tells apart the local rooms, the configured ones and `g`. -/
def HashesApart (sha : Hash) (fm : FederationManager ι) (g : RoomName) : Prop :=
  ∀ a ∈ g :: (fm.roomMgr.activeRooms ++ fm.globalRooms),
    ∀ b ∈ g :: (fm.roomMgr.activeRooms ++ fm.globalRooms), roomHash sha a = roomHash sha b → a = b

instance (sha : Hash) (fm : FederationManager ι) (g : RoomName) : Decidable (fm.HashesApart sha g) :=
  inferInstanceAs (Decidable (∀ a ∈ _, ∀ b ∈ _, roomHash sha a = roomHash sha b → a = b))

variable {sha : Hash} {fm : FederationManager ι} {g room canonical : RoomName}

/-- A room resolves to itself or to a configured room. -/
theorem resolveGlobalRoom_mem (h : fm.resolveGlobalRoom sha room = some canonical) :
    canonical = room ∨ canonical ∈ fm.globalRooms := by
  rw [resolveGlobalRoom] at h
  split at h
  · exact Or.inl (Option.some.inj h).symm
  · split at h
    · exact Or.inl (Option.some.inj h).symm
    · exact Or.inr (List.mem_of_find?_eq_some h)

theorem mem_roomsOf : room ∈ fm.roomsOf sha g ↔
    room ∈ fm.roomMgr.activeRooms ∧ fm.resolveGlobalRoom sha room = some g := by
  rw [roomsOf, List.mem_filter, decide_eq_true_iff]

/-- With hashes apart, a local room has the canonical hash of `g` only if it is `g`. -/
theorem globalRoomHash_iff (hapart : fm.HashesApart sha g)
    (hglobal : fm.resolveGlobalRoom sha g = some g) (hroom : room ∈ fm.roomMgr.activeRooms) :
    fm.globalRoomHash sha room = roomHash sha g ↔ fm.resolveGlobalRoom sha room = some g := by
  have hg : g ∈ g :: (fm.roomMgr.activeRooms ++ fm.globalRooms) := List.mem_cons_self
  have hin : room ∈ g :: (fm.roomMgr.activeRooms ++ fm.globalRooms) :=
    List.mem_cons_of_mem _ (List.mem_append_left _ hroom)
  rw [globalRoomHash]
  cases hresolve : fm.resolveGlobalRoom sha room with
  | none =>
      constructor
      · intro heq
        rw [hapart room hin g hg heq, hglobal] at hresolve
        exact absurd hresolve (Option.some_ne_none g)
      · intro h
        exact absurd h.symm (Option.some_ne_none g)
  | some canonical =>
      constructor
      · intro heq
        have hcanonical : canonical ∈ g :: (fm.roomMgr.activeRooms ++ fm.globalRooms) := by
          rcases resolveGlobalRoom_mem hresolve with rfl | hmem
          · exact hin
          · exact List.mem_cons_of_mem _ (List.mem_append_right _ hmem)
        rw [hapart canonical hcanonical g hg heq]
      · intro h
        rw [Option.some.inj h]

/-- The lookup finds a room of `g` if there is one, and no other local room. -/
theorem findRoom_canonical (hapart : fm.HashesApart sha g)
    (hglobal : fm.resolveGlobalRoom sha g = some g) :
    (∃ r ∈ fm.roomsOf sha g, fm.findRoom sha (roomHash sha g) = some r) ∨
      fm.roomsOf sha g = [] ∧
        ∀ r, fm.findRoom sha (roomHash sha g) = some r → r ∉ fm.roomMgr.activeRooms := by
  have hg : g ∈ g :: (fm.roomMgr.activeRooms ++ fm.globalRooms) := List.mem_cons_self
  have hown : ∀ r ∈ fm.roomMgr.activeRooms, roomHash sha r = roomHash sha g → r = g := fun r hr =>
    hapart r (List.mem_cons_of_mem _ (List.mem_append_left _ hr)) g hg
  rw [findRoom]
  cases hfirst : fm.roomMgr.activeRooms.find? fun r => roomHash sha r = roomHash sha g with
  | some r =>
      have hr := List.mem_of_find?_eq_some hfirst
      have hhash := List.find?_some hfirst
      simp only [decide_eq_true_eq] at hhash
      obtain rfl := hown r hr hhash
      exact Or.inl ⟨r, mem_roomsOf.mpr ⟨hr, hglobal⟩, rfl⟩
  | none =>
      cases hsecond : fm.roomMgr.activeRooms.find? fun r => fm.globalRoomHash sha r = roomHash sha g with
      | some r =>
          have hr := List.mem_of_find?_eq_some hsecond
          have hhash := List.find?_some hsecond
          simp only [decide_eq_true_eq] at hhash
          have hresolve := (globalRoomHash_iff hapart hglobal hr).mp hhash
          exact Or.inl ⟨r, mem_roomsOf.mpr ⟨hr, hresolve⟩, rfl⟩
      | none =>
          have hnone : ∀ r ∈ fm.roomMgr.activeRooms, fm.globalRoomHash sha r ≠ roomHash sha g :=
            fun r hr heq => List.find?_eq_none.mp hsecond r hr (decide_eq_true heq)
          right
          refine ⟨List.filter_eq_nil_iff.mpr fun r hr hresolve => ?_, fun r hthird hr => ?_⟩
          · exact hnone r hr ((globalRoomHash_iff hapart hglobal hr).mpr (of_decide_eq_true hresolve))
          · rw [Option.none_or, Option.none_or] at hthird
            have hhash := List.find?_some hthird
            simp only [decide_eq_true_eq] at hhash
            obtain rfl := hown r hr hhash
            exact hnone r hr ((globalRoomHash_iff hapart hglobal hr).mpr hglobal)

variable [DecidableEq ι]

/-- What a datagram that passes the filter and the limiter delivers. -/
theorem delivered_of_passed {source : ι} {now : ℕ} {data : Buf} {pkt : MediaPacket}
    (hlen : 12 ≤ data.length) (hparse : MediaPacket.fromBytes (data.drop 8) = some pkt)
    (hnew : (fm.dedup.isDup (datagramKey data pkt) now).1 = false)
    (hallow : ∀ room, fm.findRoom sha (data.take 8) = some room → (fm.allowRoom room now).1 = true) :
    (fm.handleDatagram sha source now data).delivered =
      match fm.findRoom sha (data.take 8) with
      | none => []
      | some room => (fm.roomMgr.localSenders room).map fun p =>
          (p.id, federatedBytes (data.drop 8) pkt p) := by
  have hcheck : ((fm.touch source now).checkDup (datagramKey data pkt) now).1 = false := hnew
  have hsame := (sameSetup_checked fm source (datagramKey data pkt) now).findRoom sha (data.take 8)
  rw [datagramKey] at hcheck hsame
  simp only [handleDatagram, hparse, hcheck, hsame, if_neg (Nat.not_lt.mpr hlen),
    Bool.false_eq_true, if_false]
  cases hroom : fm.findRoom sha (data.take 8) with
  | none => rfl
  | some room =>
      have hpass : (((fm.touch source now).checkDup (Deduplicator.keyOf (data.take 8)
          pkt.header.seq (payloadHash (data.drop 8))) now).2.allowRoom room now).1 = true :=
        hallow room hroom
      simp only [hpass, if_true]
      rfl

omit [DecidableEq ι] in
theorem expectedDelivery_length (media : Buf) (pkt : MediaPacket) :
    (fm.expectedDelivery sha g media pkt).length =
      ((fm.roomsOf sha g).map fun r => (fm.roomMgr.localSenders r).length).sum := by
  simp only [expectedDelivery, List.length_flatMap, List.length_map]

/-- A datagram of the global room `g` is delivered to exactly the participants
of the local rooms of `g` exactly if there is at most one such room. -/
theorem datagram_reaches_all_iff {source : ι} {now : ℕ} {data : Buf} {pkt : MediaPacket}
    (hoccupied : fm.roomMgr.Occupied) (hglobal : fm.resolveGlobalRoom sha g = some g)
    (hapart : fm.HashesApart sha g) (htag : data.take 8 = roomHash sha g) (hlen : 12 ≤ data.length)
    (hparse : MediaPacket.fromBytes (data.drop 8) = some pkt)
    (hnew : (fm.dedup.isDup (datagramKey data pkt) now).1 = false)
    (hallow : ∀ room, fm.findRoom sha (data.take 8) = some room → (fm.allowRoom room now).1 = true) :
    (fm.handleDatagram sha source now data).delivered.Perm
        (fm.expectedDelivery sha g (data.drop 8) pkt) ↔ (fm.roomsOf sha g).length ≤ 1 := by
  rw [delivered_of_passed hlen hparse hnew hallow, htag]
  rcases findRoom_canonical hapart hglobal with ⟨r, hr, hfound⟩ | ⟨hnone, hother⟩
  · rw [hfound]
    obtain ⟨rest, hperm⟩ : ∃ rest, (fm.roomsOf sha g).Perm (r :: rest) :=
      ⟨_, List.perm_cons_erase hr⟩
    constructor
    · intro h
      -- each further room has participants that are not reached
      have hlength := h.length_eq
      rw [expectedDelivery_length, (hperm.map _).sum_nat, List.map_cons, List.sum_cons,
        List.length_map, Nat.left_eq_add] at hlength
      have hrest : rest = [] := by
        apply List.eq_nil_iff_forall_not_mem.mpr
        intro r' hr'
        have hzero := List.sum_eq_zero_iff_forall_eq_nat.mp hlength _ (List.mem_map_of_mem hr')
        have hactive := (mem_roomsOf.mp (hperm.mem_iff.mpr (List.mem_cons_of_mem r hr'))).1
        exact hoccupied.mem_activeRooms.mp hactive (List.length_eq_zero_iff.mp hzero)
      rw [hperm.length_eq, hrest]
      exact Nat.le_refl 1
    · intro h
      rw [hperm.length_eq, List.length_cons] at h
      have hrest : rest = [] := List.length_eq_zero_iff.mp (by omega)
      rw [hrest] at hperm
      rw [expectedDelivery, List.perm_singleton.mp hperm]
      simp only [List.flatMap_cons, List.flatMap_nil, List.append_nil]
      exact List.Perm.refl _
  · rw [expectedDelivery, hnone]
    refine ⟨fun _ => Nat.zero_le _, fun _ => ?_⟩
    cases hfound : fm.findRoom sha (roomHash sha g) with
    | none => exact List.Perm.refl _
    | some r =>
        simp only [RoomManager.localSenders_of_inactive (hother r hfound), List.map_nil,
          List.flatMap_nil]
        exact List.Perm.refl _

end FederationManager

/-! ## A room under two names -/
namespace Aliased
open FederationManager

/-- SHA-256 of the names that are hashed here: "conf", "featherchat-group:conf"
and the alias "faf0e49f699b4bfbb4d10d26447e29af". -/
def sha : Hash := fun name =>
  if name = Triangle.conf then Triangle.sha name
  else if name = groupPrefix ++ Triangle.conf then
    #v[250, 240, 228, 159, 105, 155, 75, 251, 180, 209, 13, 38, 68, 126, 41, 175, 36, 139, 1, 24,
      51, 112, 45, 8, 243, 173, 5, 133, 39, 30, 76, 127]
  else
    #v[198, 208, 116, 240, 47, 80, 113, 240, 152, 134, 131, 189, 196, 17, 108, 70, 49, 84, 0, 69,
      133, 184, 109, 96, 215, 229, 164, 21, 162, 34, 20, 138]

def confAlias : RoomName := hashRoomName sha Triangle.conf

/-- One participant in "conf" and one in its alias. -/
def relay : FederationManager (Fin 2) :=
  { globalRooms := [Triangle.conf]
    roomMgr :=
      { rooms := [(Triangle.conf, [⟨1, .quic, some "alice", none⟩]),
          (confAlias, [⟨2, .quic, some "bob", none⟩])]
        selectedLayer := fun _ _ => 0
        ids_nodup := by decide }
    localTlsFp := 0
    peerLinks := [(1, ⟨"", [], fun _ => none, 0⟩)]
    links_nodup := by decide
    dedup := ⟨[]⟩
    rateLimiters := fun _ => none }

/-- A datagram of "conf" with an audio packet. -/
def datagram : Buf := roomHash sha Triangle.conf ++ ([2, 0, 0, 0, 0, 0] ++ List.replicate 10 0 ++ [7])

def packet : MediaPacket := ⟨⟨2, 0, .audio, .opus24k, 0, 0, 0, 0, 0⟩, [7], none⟩

/-- The participant in the alias room is not sent the packet. -/
theorem alias_missed :
    relay.resolveGlobalRoom sha Triangle.conf = some Triangle.conf ∧
      relay.HashesApart sha Triangle.conf ∧
      MediaPacket.fromBytes (datagram.drop 8) = some packet ∧
      (relay.handleDatagram sha 1 0 datagram).ingress = .localDeliver Triangle.conf ∧
      ¬ (relay.handleDatagram sha 1 0 datagram).delivered.Perm
        (relay.expectedDelivery sha Triangle.conf (datagram.drop 8) packet) := by
  decide

/-- With the alias room empty everybody is reached. -/
theorem datagram_reaches_all_iff_conf :
    ((Triangle.relay 0).handleDatagram sha 1 0 datagram).delivered.Perm
      ((Triangle.relay 0).expectedDelivery sha Triangle.conf (datagram.drop 8) packet) :=
  (datagram_reaches_all_iff ⟨by decide, by decide⟩ (by decide) (by decide) (by decide) (by decide)
    (by decide) (by decide) (fun _ _ => allowRoom_new rfl 0)).mpr (by decide)

end Aliased
end Wzp.Relay
