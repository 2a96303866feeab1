import Wzp.Crypto.Primitives
import Wzp.Relay.Rooms

/-!
# Federation of one relay

Room lookup by hash, the time-based duplicate filter, the per-room rate limiter
and the handling of one federation datagram. Times are in milliseconds.
-/
namespace Wzp.Relay
open Bytes Proto

/-- SHA-256, as a parameter. -/
abbrev Hash := Buf → Crypto.Bytes32

/-- The 8-byte tag of federation datagrams. -/
def roomHash (sha : Hash) (room : RoomName) : Buf := (sha room).toList.take 8

def hexDigit (n : UInt8) : UInt8 := if n < 10 then 48 + n else 87 + n

def hexEncode (data : Buf) : Buf :=
  data.flatMap fun (b : UInt8) => [hexDigit (b >>> 4), hexDigit (b &&& 15)]

/-- "featherchat-group:" -/
def groupPrefix : Buf :=
  [102, 101, 97, 116, 104, 101, 114, 99, 104, 97, 116, 45, 103, 114, 111, 117, 112, 58]

/-- The name under which clients that hash room names join a room. -/
def hashRoomName (sha : Hash) (groupName : RoomName) : RoomName :=
  hexEncode ((sha (groupPrefix ++ groupName)).toList.take 16)

/-! ## Duplicate filter -/

/-- Recently seen packet keys with the time they were inserted. -/
structure Deduplicator where
  entries : List (UInt64 × ℕ)
  deriving DecidableEq, Repr

namespace Deduplicator

def ttl : ℕ := 2000

/-- Big-endian value of the bytes. -/
def beBytes (bytes : Buf) : UInt64 := bytes.foldl (fun acc b => acc <<< 8 ||| b.toUInt64) 0

def keyOf (rh : Buf) (seq : UInt32) (extra : UInt64) : UInt64 := beBytes rh ^^^ seq.toUInt64 ^^^ extra

/-- Drop expired entries once there are more than 256. -/
def cleanup (d : Deduplicator) (now : ℕ) : Deduplicator :=
  if 256 < d.entries.length then ⟨d.entries.filter fun e => now - e.2 < ttl⟩ else d

def insert (d : Deduplicator) (key : UInt64) (now : ℕ) : Deduplicator :=
  ⟨(key, now) :: d.entries.filter fun e => e.1 ≠ key⟩

/-- Whether the packet was seen within the lifetime; records it if not. -/
def isDup (d : Deduplicator) (key : UInt64) (now : ℕ) : Bool × Deduplicator :=
  let d := d.cleanup now
  match d.entries.lookup key with
  | some ts => if now - ts < ttl then (true, d) else (false, d.insert key now)
  | none => (false, d.insert key now)

end Deduplicator

/-! ## Rate limiter -/

structure RateLimiter where
  maxPps : UInt32
  tokens : UInt32
  windowStart : ℕ
  deriving DecidableEq, Repr

namespace RateLimiter

def new (maxPps : UInt32) (now : ℕ) : RateLimiter := ⟨maxPps, maxPps, now⟩

def allow (l : RateLimiter) (now : ℕ) : Bool × RateLimiter :=
  let l := if 1000 ≤ now - l.windowStart then { l with tokens := l.maxPps, windowStart := now } else l
  if 0 < l.tokens then (true, { l with tokens := l.tokens - 1 }) else (false, l)

end RateLimiter

def federationRateLimitPps : UInt32 := 500

/-! ## The manager -/

/-- Active link to a peer relay. -/
structure PeerLink where
  label : String
  activeRooms : List RoomName
  remoteParticipants : RoomName → Option (List RoomParticipant)
  lastSeen : ℕ

/-- The state of one relay; `ι` stands for normalized relay fingerprints, which
are the keys of the link map. -/
structure FederationManager (ι : Type) where
  globalRooms : List RoomName
  roomMgr : RoomManager
  localTlsFp : ι
  peerLinks : List (ι × PeerLink)
  links_nodup : (peerLinks.map Prod.fst).Nodup
  dedup : Deduplicator
  rateLimiters : RoomName → Option RateLimiter

/-- "call-" -/
def callPrefix : RoomName := [99, 97, 108, 108, 45]

namespace FederationManager
variable {ι : Type}

def peers (fm : FederationManager ι) : List ι := fm.peerLinks.map Prod.fst

/-- The canonical name of a global room, from its raw or its hashed name. -/
def resolveGlobalRoom (sha : Hash) (fm : FederationManager ι) (room : RoomName) :
    Option RoomName :=
  if callPrefix.isPrefixOf room then some room
  else if room ∈ fm.globalRooms then some room
  else fm.globalRooms.find? fun name => hashRoomName sha name = room

def isGlobalRoom (sha : Hash) (fm : FederationManager ι) (room : RoomName) : Bool :=
  if callPrefix.isPrefixOf room then true else (fm.resolveGlobalRoom sha room).isSome

def globalRoomHash (sha : Hash) (fm : FederationManager ι) (room : RoomName) : Buf :=
  match fm.resolveGlobalRoom sha room with
  | some canonical => roomHash sha canonical
  | none => roomHash sha room

/-- Local rooms by their own hash, then by the hash of their global name, then
the configured global rooms. -/
def findRoom (sha : Hash) (fm : FederationManager ι) (rh : Buf) : Option RoomName :=
  ((fm.roomMgr.activeRooms.find? fun r => roomHash sha r = rh).or
    (fm.roomMgr.activeRooms.find? fun r => fm.globalRoomHash sha r = rh)).or
    (fm.globalRooms.find? fun name => roomHash sha name = rh)

/-- Change the link to one peer, if there is one. -/
def modifyLink [DecidableEq ι] (fm : FederationManager ι) (peer : ι) (f : PeerLink → PeerLink) :
    FederationManager ι :=
  { fm with
    peerLinks := fm.peerLinks.map fun (fp, link) => (fp, if fp = peer then f link else link)
    links_nodup := by
      rw [List.map_map]
      exact fm.links_nodup }

@[simp] theorem modifyLink_peers [DecidableEq ι] (fm : FederationManager ι) (peer : ι)
    (f : PeerLink → PeerLink) : (fm.modifyLink peer f).peers = fm.peers := by
  simp only [peers, modifyLink, List.map_map]
  rfl

/-- Locally generated media, to all peers. -/
def forwardToPeers (fm : FederationManager ι) (rh media : Buf) : List (ι × Buf) :=
  fm.peers.map fun fp => (fp, rh ++ media)

/-- What a packet of a local participant sends to the peers: nothing unless the
participant's room is global. -/
def egress (sha : Hash) (fm : FederationManager ι) (room : RoomName) (pkt : MediaPacket) :
    List (ι × Buf) :=
  if fm.isGlobalRoom sha room then fm.forwardToPeers (fm.globalRoomHash sha room) pkt.toBytes
  else []

end FederationManager

/-! ## One federation datagram -/

/-- What becomes of a datagram, by the event the relay logs for it. -/
inductive Ingress where
  | tooShort
  | malformed
  | dedupDrop
  | roomNotFound
  | rateLimitDrop
  | localDeliver (room : RoomName)
  deriving DecidableEq, Repr

/-- Xor of the first 16 bytes of the media, shifted to 8 byte positions. -/
def payloadHash (media : Buf) : UInt64 :=
  (media.take 16).zipIdx.foldl (fun h (b, i) => h ^^^ b.toUInt64 <<< UInt64.ofNat (i % 8 * 8)) 0

/-- What a participant is sent for media that came from a peer relay. -/
def federatedBytes (media : Buf) (pkt : MediaPacket) (receiver : Participant) : Buf :=
  match receiver.sender with
  | .quic => media
  | .webSocket => pkt.payload

/-- The result of handling a datagram. -/
structure Handled (ι : Type) where
  ingress : Ingress
  manager : FederationManager ι
  delivered : List (ParticipantId × Buf)
  forwarded : List (ι × Buf)

namespace FederationManager
variable {ι : Type} [DecidableEq ι]

def drop (fm : FederationManager ι) (ingress : Ingress) : Handled ι := ⟨ingress, fm, [], []⟩

/-- Rate limit a room, starting a limiter for it if it has none. -/
def allowRoom (fm : FederationManager ι) (room : RoomName) (now : ℕ) : Bool × FederationManager ι :=
  let limiter := (fm.rateLimiters room).getD (.new federationRateLimitPps now)
  let (allowed, limiter) := limiter.allow now
  (allowed, { fm with rateLimiters := Function.update fm.rateLimiters room (some limiter) })

def touch (fm : FederationManager ι) (peer : ι) (now : ℕ) : FederationManager ι :=
  fm.modifyLink peer fun link => { link with lastSeen := now }

def checkDup (fm : FederationManager ι) (key : UInt64) (now : ℕ) : Bool × FederationManager ι :=
  let (seen, dedup) := fm.dedup.isDup key now
  (seen, { fm with dedup })

def handleDatagram (sha : Hash) (fm : FederationManager ι) (source : ι) (now : ℕ) (data : Buf) :
    Handled ι :=
  if data.length < 12 then fm.drop .tooShort
  else
    let rh := data.take 8
    let media := data.drop 8
    match MediaPacket.fromBytes media with
    | none => fm.drop .malformed
    | some pkt =>
        let key := Deduplicator.keyOf rh pkt.header.seq (payloadHash media)
        let (seen, fm) := (fm.touch source now).checkDup key now
        if seen then fm.drop .dedupDrop
        else
          match fm.findRoom sha rh with
          | none => fm.drop .roomNotFound
          | some room =>
              let (allowed, fm) := fm.allowRoom room now
              if allowed then
                { ingress := .localDeliver room
                  manager := fm
                  delivered := (fm.roomMgr.localSenders room).map fun p =>
                    (p.id, federatedBytes media pkt p)
                  forwarded := (fm.peers.filter (· ≠ source)).map fun fp => (fp, rh ++ media) }
              else fm.drop .rateLimitDrop

end FederationManager

/-! ## What the duplicate filter remembers -/
namespace Deduplicator

/-- The key was recorded at or after `start`. -/
def SeenSince (d : Deduplicator) (key : UInt64) (start : ℕ) : Prop :=
  ∃ ts, d.entries.lookup key = some ts ∧ start ≤ ts

theorem lookup_filter {l : List (UInt64 × ℕ)} {p : UInt64 × ℕ → Bool} {key : UInt64} {ts : ℕ}
    (h : l.lookup key = some ts) (hp : p (key, ts) = true) :
    (l.filter p).lookup key = some ts := by
  induction l with
  | nil => exact nomatch h
  | cons e l ih =>
      obtain ⟨k, t⟩ := e
      rw [List.lookup_cons] at h
      by_cases hk : (key == k) = true
      · rw [hk] at h
        obtain rfl := Option.some.inj h
        obtain rfl := eq_of_beq hk
        rw [List.filter_cons_of_pos hp, List.lookup_cons, hk]
      · rw [(Bool.not_eq_true _).mp hk] at h
        rw [List.filter_cons]
        split
        · rw [List.lookup_cons, (Bool.not_eq_true _).mp hk]
          exact ih h
        · exact ih h

variable {d : Deduplicator} {key other : UInt64} {start now : ℕ}

theorem live {ts : ℕ} (hle : start ≤ ts) (hnow : now < start + ttl) : now - ts < ttl := by
  unfold ttl at *
  omega

theorem SeenSince.cleanup (h : d.SeenSince key start) (hnow : now < start + ttl) :
    (d.cleanup now).SeenSince key start := by
  obtain ⟨ts, hts, hle⟩ := h
  rw [Deduplicator.cleanup]
  split
  · exact ⟨ts, lookup_filter hts (decide_eq_true (live hle hnow)), hle⟩
  · exact ⟨ts, hts, hle⟩

theorem SeenSince.insert (h : d.SeenSince key start) (hnow : start ≤ now) :
    (d.insert other now).SeenSince key start := by
  obtain ⟨ts, hts, hle⟩ := h
  by_cases hk : key = other
  · subst hk
    exact ⟨now, List.lookup_cons_self, hnow⟩
  · refine ⟨ts, ?_, hle⟩
    rw [Deduplicator.insert, List.lookup_cons, beq_false_of_ne hk]
    exact lookup_filter hts (decide_eq_true hk)

/-- Within its lifetime a recorded key is a duplicate. -/
theorem isDup_of_seen (h : d.SeenSince key start) (hnow : now < start + ttl) :
    (d.isDup key now).1 = true := by
  obtain ⟨ts, hts, hle⟩ := h.cleanup hnow
  simp only [isDup, hts, live hle hnow, if_true]

/-- Looking up any key keeps the recorded ones. -/
theorem SeenSince.isDup (h : d.SeenSince key start) (hle : start ≤ now) (hnow : now < start + ttl)
    (other : UInt64) : (d.isDup other now).2.SeenSince key start := by
  have hclean := h.cleanup hnow
  simp only [Deduplicator.isDup]
  split
  · split
    · exact hclean
    · exact hclean.insert hle
  · exact hclean.insert hle

/-- A key that passes is recorded. -/
theorem seen_of_isDup (hle : start ≤ now) (h : (d.isDup key now).1 = false) :
    (d.isDup key now).2.SeenSince key start := by
  simp only [isDup] at h ⊢
  split at h
  · split at h
    · exact nomatch h
    · rename_i hold
      rw [if_neg hold]
      exact ⟨now, List.lookup_cons_self, hle⟩
  · exact ⟨now, List.lookup_cons_self, hle⟩

end Deduplicator

/-! ## What one datagram does -/
namespace FederationManager
variable {ι : Type}

/-- Same rooms and same peers: everything the lookup and the forwarding read. -/
structure SameSetup (a b : FederationManager ι) : Prop where
  globalRooms : a.globalRooms = b.globalRooms
  roomMgr : a.roomMgr = b.roomMgr
  peers : a.peers = b.peers

theorem SameSetup.trans {a b c : FederationManager ι} (h : SameSetup a b) (h' : SameSetup b c) :
    SameSetup a c :=
  ⟨h.globalRooms.trans h'.globalRooms, h.roomMgr.trans h'.roomMgr, h.peers.trans h'.peers⟩

/-- Every relay has the rooms and peers of `setup`. -/
def HaveSetup (setup relays : ι → FederationManager ι) : Prop := ∀ i, SameSetup (relays i) (setup i)

theorem HaveSetup.update [DecidableEq ι] {setup relays : ι → FederationManager ι}
    (h : HaveSetup setup relays) {i : ι} {fm : FederationManager ι}
    (hfm : SameSetup fm (relays i)) : HaveSetup setup (Function.update relays i fm) := by
  intro j
  by_cases hj : j = i
  · subst hj
    rw [Function.update_self]
    exact hfm.trans (h j)
  · rw [Function.update_of_ne hj]
    exact h j

theorem SameSetup.resolveGlobalRoom {a b : FederationManager ι} (h : SameSetup a b) (sha : Hash)
    (room : RoomName) : a.resolveGlobalRoom sha room = b.resolveGlobalRoom sha room := by
  simp only [FederationManager.resolveGlobalRoom, h.globalRooms]

theorem SameSetup.isGlobalRoom {a b : FederationManager ι} (h : SameSetup a b) (sha : Hash)
    (room : RoomName) : a.isGlobalRoom sha room = b.isGlobalRoom sha room := by
  simp only [FederationManager.isGlobalRoom, h.resolveGlobalRoom]

theorem SameSetup.globalRoomHash {a b : FederationManager ι} (h : SameSetup a b) (sha : Hash)
    (room : RoomName) : a.globalRoomHash sha room = b.globalRoomHash sha room := by
  simp only [FederationManager.globalRoomHash, h.resolveGlobalRoom]

theorem SameSetup.findRoom {a b : FederationManager ι} (h : SameSetup a b) (sha : Hash)
    (rh : Buf) : a.findRoom sha rh = b.findRoom sha rh := by
  simp only [FederationManager.findRoom, h.globalRooms, h.roomMgr, h.globalRoomHash]

/-- The key of a datagram that carries this packet. -/
def datagramKey (data : Buf) (pkt : MediaPacket) : UInt64 :=
  Deduplicator.keyOf (data.take 8) pkt.header.seq (payloadHash (data.drop 8))

theorem sameSetup_allowRoom (fm : FederationManager ι) (room : RoomName) (now : ℕ) :
    SameSetup (fm.allowRoom room now).2 fm := ⟨rfl, rfl, rfl⟩

/-- A limiter that has just been started lets a packet through. -/
theorem allowRoom_new {fm : FederationManager ι} {room : RoomName}
    (h : fm.rateLimiters room = none) (now : ℕ) : (fm.allowRoom room now).1 = true := by
  simp only [allowRoom, h, Option.getD_none, RateLimiter.allow, RateLimiter.new, Nat.sub_self]
  rfl

theorem sameSetup_checkDup (fm : FederationManager ι) (key : UInt64) (now : ℕ) :
    SameSetup (fm.checkDup key now).2 fm := ⟨rfl, rfl, rfl⟩

variable [DecidableEq ι]

/-- An accepted datagram was new to the filter; its room gets the media and all
other peers get the datagram. -/
structure Accepts (sha : Hash) (fm : FederationManager ι) (source : ι) (now : ℕ) (data : Buf)
    (pkt : MediaPacket) (room : RoomName) (r : Handled ι) : Prop where
  ingress : r.ingress = .localDeliver room
  parsed : MediaPacket.fromBytes (data.drop 8) = some pkt
  found : fm.findRoom sha (data.take 8) = some room
  new : (fm.dedup.isDup (datagramKey data pkt) now).1 = false
  dedup : r.manager.dedup = (fm.dedup.isDup (datagramKey data pkt) now).2
  delivered : r.delivered = (fm.roomMgr.localSenders room).map fun p =>
    (p.id, federatedBytes (data.drop 8) pkt p)
  forwarded : r.forwarded = (fm.peers.filter (· ≠ source)).map fun fp => (fp, data)

/-- A dropped datagram goes nowhere; at most it was entered into the filter. -/
structure Drops (fm : FederationManager ι) (now : ℕ) (r : Handled ι) : Prop where
  ingress : ∀ room, r.ingress ≠ .localDeliver room
  delivered : r.delivered = []
  forwarded : r.forwarded = []
  dedup : r.manager.dedup = fm.dedup ∨ ∃ key, r.manager.dedup = (fm.dedup.isDup key now).2

theorem sameSetup_touch (fm : FederationManager ι) (peer : ι) (now : ℕ) :
    SameSetup (fm.touch peer now) fm := ⟨rfl, rfl, modifyLink_peers _ _ _⟩

/-- The relay after the duplicate check of a datagram. -/
theorem sameSetup_checked (fm : FederationManager ι) (source : ι) (key : UInt64) (now : ℕ) :
    SameSetup ((fm.touch source now).checkDup key now).2 fm :=
  (sameSetup_checkDup _ _ _).trans (sameSetup_touch _ _ _)

theorem handleDatagram_setup (sha : Hash) (fm : FederationManager ι) (source : ι) (now : ℕ)
    (data : Buf) : SameSetup (fm.handleDatagram sha source now data).manager fm := by
  simp only [handleDatagram]
  split
  · exact ⟨rfl, rfl, rfl⟩
  · split
    · exact ⟨rfl, rfl, rfl⟩
    · split
      · exact sameSetup_checked fm source _ now
      · split
        · exact sameSetup_checked fm source _ now
        · have hlimited := fun room key => (sameSetup_allowRoom
            ((fm.touch source now).checkDup key now).2 room now).trans
            (sameSetup_checked fm source key now)
          split
          · exact hlimited _ _
          · exact hlimited _ _

theorem handleDatagram_cases (sha : Hash) (fm : FederationManager ι) (source : ι) (now : ℕ)
    (data : Buf) :
    (∃ pkt room, Accepts sha fm source now data pkt room (fm.handleDatagram sha source now data)) ∨
      Drops fm now (fm.handleDatagram sha source now data) := by
  simp only [handleDatagram]
  split
  · exact Or.inr ⟨fun _ => nofun, rfl, rfl, Or.inl rfl⟩
  · split
    · exact Or.inr ⟨fun _ => nofun, rfl, rfl, Or.inl rfl⟩
    · rename_i pkt hparse
      split
      · exact Or.inr ⟨fun _ => nofun, rfl, rfl, Or.inr ⟨_, rfl⟩⟩
      · rename_i hnew
        have hsame := sameSetup_checked fm source (datagramKey data pkt) now
        split
        · exact Or.inr ⟨fun _ => nofun, rfl, rfl, Or.inr ⟨_, rfl⟩⟩
        · rename_i room hroom
          split
          · left
            refine ⟨pkt, room, rfl, hparse, ?_, (Bool.not_eq_true _).mp hnew, rfl, rfl, ?_⟩
            · rw [← hsame.findRoom sha]
              exact hroom
            · rw [List.take_append_drop]
              exact congrArg (fun ps => (ps.filter (· ≠ source)).map fun fp => (fp, data))
                hsame.peers
          · exact Or.inr ⟨fun _ => nofun, rfl, rfl, Or.inr ⟨_, rfl⟩⟩

/-- A relay that has seen nothing yet accepts what it can parse and look up. -/
theorem handleDatagram_fresh {sha : Hash} {fm : FederationManager ι} (source : ι) (now : ℕ)
    {data : Buf} {pkt : MediaPacket} {room : RoomName} (hlen : 12 ≤ data.length)
    (hparse : MediaPacket.fromBytes (data.drop 8) = some pkt)
    (hroom : fm.findRoom sha (data.take 8) = some room) (hdedup : fm.dedup.entries = [])
    (hlimit : fm.rateLimiters room = none) :
    (fm.handleDatagram sha source now data).ingress = .localDeliver room := by
  have hnew : ((fm.touch source now).checkDup (datagramKey data pkt) now).1 = false := by
    simp only [checkDup, touch, modifyLink, Deduplicator.isDup, Deduplicator.cleanup, hdedup,
      List.length_nil, Nat.not_lt_zero, if_false, List.lookup_nil]
  have hfound := ((sameSetup_checked fm source (datagramKey data pkt) now).findRoom sha
    (data.take 8)).trans hroom
  have hallow : (((fm.touch source now).checkDup (datagramKey data pkt) now).2.allowRoom
      room now).1 = true := allowRoom_new hlimit now
  rw [datagramKey] at hnew hfound hallow
  simp only [handleDatagram, hparse, hnew, hfound, hallow, if_neg (Nat.not_lt.mpr hlen),
    Bool.false_eq_true, if_false, if_true]

end FederationManager

/-! ## Three relays in a triangle -/
namespace Triangle

/-- "conf" -/
def conf : RoomName := [99, 111, 110, 102]

/-- SHA-256 of "conf", the only name that is hashed here. -/
def sha : Hash := fun _ =>
  #v[12, 50, 108, 79, 2, 121, 123, 8, 143, 197, 102, 230, 79, 191, 226, 22, 35, 144, 245, 47, 47,
    236, 20, 131, 236, 58, 65, 58, 127, 17, 201, 16]

/-- Each relay is linked to the other two and has one participant in the room. -/
def relay (i : Fin 3) : FederationManager (Fin 3) :=
  { globalRooms := [conf]
    roomMgr :=
      { rooms := [(conf, [⟨1, .quic, none, none⟩])]
        selectedLayer := fun _ _ => 0
        ids_nodup := by decide }
    localTlsFp := i
    peerLinks := ((List.finRange 3).filter (· ≠ i)).map fun j => (j, ⟨"", [], fun _ => none, 0⟩)
    links_nodup := by
      rw [List.map_map]
      exact (List.nodup_finRange 3).filter _ |>.map fun _ _ heq => heq
    dedup := ⟨[]⟩
    rateLimiters := fun _ => none }

end Triangle
end Wzp.Relay
