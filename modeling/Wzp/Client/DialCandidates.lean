import Mathlib.Data.List.Dedup
import Mathlib.Data.List.Sort
import Wzp.Client.IceAgent

/-!
# Addresses to dial

The addresses of a peer, those that are predicted for its ports behind a hard NAT
and those that are sprayed at it, and the order in which they are dialed.
-/
namespace Wzp.Client

inductive IpAddr where
  | v4 (bits : UInt32)
  | v6 (bits : BitVec 128)
  deriving DecidableEq, Repr

structure NetAddr where
  ip : IpAddr
  port : UInt16
  deriving DecidableEq, Repr

/-- The text of an address without a port, as the standard library reads it. -/
class IpText where
  parse : String → Option IpAddr

def IpAddr.isV6 : IpAddr → Bool
  | .v4 _ => false
  | .v6 _ => true

/-- The IPv4 address, the unspecified one for IPv6. -/
def IpAddr.v4OrUnspecified : IpAddr → IpAddr
  | .v4 bits => .v4 bits
  | .v6 _ => .v4 0

/-- The digits of a number in decimal. -/
def parseDigits (cs : List Char) : Option ℕ :=
  if cs ≠ [] ∧ cs.all Char.isDigit then
    some (cs.foldl (fun n c => 10 * n + (c.toNat - '0'.toNat)) 0)
  else none

def parseI16 (cs : List Char) : Option ℤ :=
  let (sign, digits) : ℤ × List Char := match cs with
    | '-' :: digits => (-1, digits)
    | '+' :: digits => (1, digits)
    | digits => (1, digits)
  (parseDigits digits).bind fun n =>
    let value := sign * n
    if -32768 ≤ value ∧ value ≤ 32767 then some value else none

def parseSequentialDelta (allocation : String) : Option ℤ :=
  (List.dropPrefix? allocation.toList "sequential(delta=".toList).bind fun s =>
    (List.dropSuffix? s ")".toList).bind parseI16

/-- The ports around the one that is due after some more flows, in order. -/
def predictPorts (lastPort : UInt16) (delta : ℤ) (offset spread : ℕ) : List UInt16 :=
  let base := lastPort.toNat + delta * (offset + 1)
  let ports := (List.range (2 * spread + 1)).map fun i => (base + (i - spread) * delta) % 65536
  (((ports.filter fun p => 0 < p).map Int.toNat).insertionSort (· ≤ ·)).dedup.map UInt16.ofNat

/-- The known ports, and random ports up to a number of probes. A port that is
drawn again is left out. -/
def generateDialerTargets (acceptorIp : IpAddr) (knownPorts : List UInt16) (totalProbes : UInt16)
    (draw : ℕ → UInt16) : List NetAddr :=
  let targets := knownPorts.map fun port => ⟨acceptorIp, port⟩
  let remaining := totalProbes.toNat - (UInt16.ofNat knownPorts.length).toNat
  (List.range remaining).foldl (fun targets i =>
    if targets.contains ⟨acceptorIp, draw i⟩ then targets
    else targets ++ [⟨acceptorIp, draw i⟩]) targets

/-- No flow comes from port zero. -/
theorem ne_zero_of_mem_predictPorts {lastPort port : UInt16} {delta : ℤ} {offset spread : ℕ}
    (h : port ∈ predictPorts lastPort delta offset spread) : port ≠ 0 := by
  obtain ⟨n, hn, rfl⟩ := List.mem_map.mp h
  rw [List.mem_dedup, List.mem_insertionSort] at hn
  obtain ⟨p, hp, rfl⟩ := List.mem_map.mp hn
  obtain ⟨hp, hpos⟩ := List.mem_filter.mp hp
  obtain ⟨i, -, rfl⟩ := List.mem_map.mp hp
  have hpos := of_decide_eq_true hpos
  have hlt := Int.emod_lt_of_pos (lastPort.toNat + delta * (offset + 1) + (i - spread) * delta)
    (by decide : (0 : ℤ) < 65536)
  intro hzero
  have hmod := congrArg UInt16.toNat hzero
  rw [UInt16.toNat_ofNat'] at hmod
  change _ = 0 at hmod
  omega

namespace PeerCandidates

def pushNew (out : List NetAddr) (a : Option NetAddr) : List NetAddr :=
  match a with
  | some a => if !a.ip.isV6 && !out.contains a then out ++ [a] else out
  | none => out

def sameNetwork (c : PeerCandidates NetAddr) (ownReflexive : Option NetAddr) : Bool :=
  match ownReflexive, c.reflexive with
  | some own, some peer => own.ip = peer.ip
  | _, _ => false

/-- Hosts are dialed only in the network of the peer, and IPv6 never. -/
def smartDialOrder (c : PeerCandidates NetAddr) (ownReflexive : Option NetAddr) : List NetAddr :=
  let out := if c.sameNetwork ownReflexive then c.hosts.filter fun a => !a.ip.isV6 else []
  pushNew (pushNew out c.mapped) c.reflexive

variable {c : PeerCandidates NetAddr} {own : Option NetAddr} {a : NetAddr}

theorem mem_pushNew {out : List NetAddr} {new : Option NetAddr} (h : a ∈ pushNew out new) :
    a ∈ out ∨ (new = some a ∧ a.ip.isV6 = false) := by
  unfold pushNew at h
  split at h
  · next b =>
      split at h
      · next hnew =>
          rcases List.mem_append.mp h with h | h
          · exact Or.inl h
          · obtain rfl := List.mem_singleton.mp h
            rw [Bool.and_eq_true, Bool.not_eq_true'] at hnew
            exact Or.inr ⟨rfl, hnew.1⟩
      · exact Or.inl h
  · exact Or.inl h

/-- What is dialed is a candidate, and not of IPv6. -/
theorem mem_smartDialOrder (h : a ∈ c.smartDialOrder own) : a.ip.isV6 = false ∧
    (a ∈ c.hosts ∨ c.mapped = some a ∨ c.reflexive = some a) := by
  unfold smartDialOrder at h
  rcases mem_pushNew h with h | ⟨h, hv6⟩
  · rcases mem_pushNew h with h | ⟨h, hv6⟩
    · split at h
      · obtain ⟨hhost, hv6⟩ := List.mem_filter.mp h
        rw [Bool.not_eq_true'] at hv6
        exact ⟨hv6, Or.inl hhost⟩
      · cases h
    · exact ⟨hv6, Or.inr (Or.inl h)⟩
  · exact ⟨hv6, Or.inr (Or.inr h)⟩

end PeerCandidates
end Wzp.Client
