import Mathlib.Data.List.Forall2
import Mathlib.Data.List.Perm.Subperm
import Wzp.Client.DialCandidates

/-!
# What kind of NAT

Relays and STUN servers tell the client the address they see it under. From the public ones
among these addresses the client concludes how its NAT assigns them.
-/
namespace Wzp.Client

structure NatProbeResult where
  relayName : String
  relayAddr : String
  observedAddr : Option String
  latencyMs : Option UInt32
  error : Option String
  deriving DecidableEq, Repr

inductive NatType where
  | cone
  | symmetricPort
  | multiple
  | unknown
  deriving DecidableEq, Repr

structure NatDetection where
  probes : List NatProbeResult
  natType : NatType
  consensusAddr : Option String
  deriving DecidableEq, Repr

def octet (bits : UInt32) (i : ℕ) : ℕ := bits.toNat / 256 ^ (3 - i) % 256

/-- Addresses of the own network and of the shared network of a carrier. -/
def isPrivateOrLoopback (addr : NetAddr) : Bool :=
  match addr.ip with
  | .v4 bits =>
      let o := octet bits
      o 0 = 127 ||
        (o 0 = 10 || (o 0 = 172 && 16 ≤ o 1 && o 1 ≤ 31) || (o 0 = 192 && o 1 = 168)) ||
        (o 0 = 169 && o 1 = 254) ||
        (o 0 = 100 && o 1 &&& 0xc0 = 0x40)
  | .v6 bits => bits = 1 || bits = 0 || (bits >>> 112) &&& 0xffc0 = 0xfe80

section
variable [SocketAddr NetAddr]

def classifyNat (probes : List NatProbeResult) : NatType × Option String :=
  let parsed : List NetAddr := probes.filterMap fun p => p.observedAddr.bind SocketAddr.parse
  let successes := parsed.filter fun a => !isPrivateOrLoopback a
  match successes with
  | first :: _ :: _ =>
      if !successes.all (fun a => a.ip = first.ip) then (.multiple, none)
      else if successes.all (fun a => a.port = first.port) then
        (.cone, some (SocketAddr.toText first))
      else (.symmetricPort, none)
  | _ => (.unknown, none)

/-- What the relays say and what the STUN servers say, classified again together. -/
def detectNatTypeWithStun (relayProbes stunProbes : List NatProbeResult) : NatDetection :=
  let allProbes := relayProbes ++ stunProbes
  let (natType, consensusAddr) := classifyNat allProbes
  ⟨allProbes, natType, consensusAddr⟩

end

/-! ## Verdicts by what they say -/

/-- How far a NAT is from giving one address to everyone. -/
def NatType.severity : NatType → ℕ
  | .unknown => 0
  | .cone => 1
  | .symmetricPort => 2
  | .multiple => 3

/-- Two of the observations differ in what `f` makes of them. -/
def Differ {β : Type*} (f : NetAddr → β) (l : List NetAddr) : Prop := ∃ a ∈ l, ∃ b ∈ l, f a ≠ f b

instance {β : Type*} [DecidableEq β] (f : NetAddr → β) (l : List NetAddr) : Decidable (Differ f l) :=
  inferInstanceAs (Decidable (∃ a ∈ l, ∃ b ∈ l, f a ≠ f b))

/-- What observations show: nothing yet, that they differ in the address, that they differ in
the port, or that they agree. -/
def verdict (l : List NetAddr) : NatType :=
  if l.length < 2 then .unknown
  else if Differ NetAddr.ip l then .multiple
  else if Differ id l then .symmetricPort
  else .cone

variable {β : Type*} {f : NetAddr → β} {l m : List NetAddr} {a b : NetAddr}

theorem Differ.two_le (h : Differ f l) : 2 ≤ l.length := by
  obtain ⟨a, ha, b, hb, hne⟩ := h
  match l with
  | [] => cases ha
  | [x] =>
      rw [List.mem_singleton.mp ha, List.mem_singleton.mp hb] at hne
      exact absurd rfl hne
  | _ :: _ :: _ => simp

theorem Differ.mono (h : Differ f l) (hsub : l ⊆ m) : Differ f m := by
  obtain ⟨a, ha, b, hb, hne⟩ := h
  exact ⟨a, hsub ha, b, hsub hb, hne⟩

theorem Differ.of_ip (h : Differ NetAddr.ip l) : Differ id l := by
  obtain ⟨a, ha, b, hb, hne⟩ := h
  exact ⟨a, ha, b, hb, fun heq => hne (congrArg NetAddr.ip heq)⟩

theorem differ_cons : Differ f (a :: l) ↔ ∃ x ∈ a :: l, f x ≠ f a := by
  constructor
  · rintro ⟨x, hx, y, hy, hne⟩
    by_cases h : f x = f a
    · exact ⟨y, hy, fun hya => hne (h.trans hya.symm)⟩
    · exact ⟨x, hx, h⟩
  · rintro ⟨x, hx, hne⟩
    exact ⟨x, hx, a, List.mem_cons_self, hne⟩

theorem one_le_severity : 1 ≤ (verdict l).severity ↔ 2 ≤ l.length := by
  unfold verdict
  split
  · next h => simpa [NatType.severity] using h
  · next h =>
      refine iff_of_true ?_ (Nat.not_lt.mp h)
      split
      · decide
      · split
        · decide
        · decide

theorem two_le_severity : 2 ≤ (verdict l).severity ↔ Differ id l := by
  unfold verdict
  split
  · next h => exact iff_of_false (by decide) fun hdiffer => Nat.not_lt.mpr hdiffer.two_le h
  · split
    · next h => exact iff_of_true (by decide) h.of_ip
    · split
      · next h => exact iff_of_true (by decide) h
      · next h => exact iff_of_false (by decide) h

theorem three_le_severity : 3 ≤ (verdict l).severity ↔ Differ NetAddr.ip l := by
  unfold verdict
  split
  · next h => exact iff_of_false (by decide) fun hdiffer => Nat.not_lt.mpr hdiffer.two_le h
  · split
    · next h => exact iff_of_true (by decide) h
    · next h =>
        refine iff_of_false ?_ h
        split
        · decide
        · decide

theorem verdict_cone_iff : verdict l = .cone ↔ 2 ≤ l.length ∧ ¬ Differ id l := by
  rw [← one_le_severity, ← two_le_severity]
  cases verdict l <;> simp [NatType.severity]

theorem severity_le (t : NatType) : t.severity ≤ 3 := by
  cases t <;> decide

/-- More observations never make the NAT look better. -/
theorem verdict_mono (h : l.Subperm m) : (verdict l).severity ≤ (verdict m).severity := by
  have hlen := h.length_le
  have hsub := h.subset
  by_contra hlt
  have hthree := severity_le (verdict l)
  have hcases : 3 ≤ (verdict l).severity ∧ ¬ 3 ≤ (verdict m).severity ∨
      2 ≤ (verdict l).severity ∧ ¬ 2 ≤ (verdict m).severity ∨
        1 ≤ (verdict l).severity ∧ ¬ 1 ≤ (verdict m).severity := by
    omega
  rw [three_le_severity, three_le_severity, two_le_severity, two_le_severity, one_le_severity,
    one_le_severity] at hcases
  rcases hcases with ⟨hl, hm⟩ | ⟨hl, hm⟩ | ⟨hl, hm⟩
  · exact hm (hl.mono hsub)
  · exact hm (hl.mono hsub)
  · exact hm (hl.trans hlen)

/-! ## The classifier -/

section
variable [SocketAddr NetAddr] {D : Type*} {probes p q : List NatProbeResult}

/-- The public addresses among those that were observed. -/
def publicAddrs (probes : List NatProbeResult) : List NetAddr :=
  (probes.filterMap fun p => p.observedAddr.bind SocketAddr.parse).filter
    fun a => !isPrivateOrLoopback a

/-- The code compares every observation with the first, the verdict any two. -/
theorem classifyNat_eq : classifyNat probes =
    (verdict (publicAddrs probes), if verdict (publicAddrs probes) = .cone then
      (publicAddrs probes).head?.map SocketAddr.toText else none) := by
  have hunfold : classifyNat probes = match publicAddrs probes with
    | first :: _ :: _ =>
        if !(publicAddrs probes).all (fun a => a.ip = first.ip) then (.multiple, none)
        else if (publicAddrs probes).all (fun a => a.port = first.port) then
          (.cone, some (SocketAddr.toText first))
        else (.symmetricPort, none)
    | _ => (.unknown, none) := rfl
  rw [hunfold]
  match publicAddrs probes with
  | [] => rfl
  | [_] => rfl
  | first :: second :: rest =>
      have hlen : ¬ (first :: second :: rest).length < 2 := by simp
      dsimp only
      by_cases hip : Differ NetAddr.ip (first :: second :: rest)
      · have hall : (first :: second :: rest).all (fun a => decide (a.ip = first.ip)) = false := by
          obtain ⟨x, hx, hne⟩ := differ_cons.mp hip
          exact List.all_eq_false.mpr ⟨x, hx, fun heq => hne (of_decide_eq_true heq)⟩
        simp only [verdict, hlen, hip, hall, if_false, if_true, Bool.not_false, reduceCtorEq]
      · have hall : ∀ a ∈ first :: second :: rest, a.ip = first.ip := by
          simpa using mt differ_cons.mpr hip
        have hips : (first :: second :: rest).all (fun a => decide (a.ip = first.ip)) = true := by
          simpa using hall
        by_cases hdiffer : Differ id (first :: second :: rest)
        · have hport : (first :: second :: rest).all (fun a => decide (a.port = first.port)) = false := by
            obtain ⟨x, hx, hne⟩ := differ_cons.mp hdiffer
            refine List.all_eq_false.mpr ⟨x, hx, fun hports => hne ?_⟩
            exact NetAddr.mk.injEq .. ▸ ⟨hall x hx, of_decide_eq_true hports⟩
          simp only [verdict, hlen, hip, hdiffer, hips, hport, if_false, if_true, Bool.not_true,
            Bool.false_eq_true, reduceCtorEq]
        · have hsame : ∀ a ∈ first :: second :: rest, a = first := by
            simpa using mt differ_cons.mpr hdiffer
          have hports : (first :: second :: rest).all (fun a => decide (a.port = first.port)) = true := by
            refine List.all_eq_true.mpr fun x hx => decide_eq_true ?_
            rw [hsame x hx]
          simp only [verdict, hlen, hip, hdiffer, hips, hports, if_false, if_true, Bool.not_true,
            Bool.false_eq_true, List.head?_cons, Option.map_some]

theorem publicAddrs_subperm (h : p.Subperm q) : (publicAddrs p).Subperm (publicAddrs q) := by
  obtain ⟨r, hperm, hsub⟩ := h
  refine ⟨publicAddrs r, ?_, ?_⟩
  · exact (hperm.filterMap _).filter _
  · exact (hsub.filterMap _).filter _

/-- The address on which all observations agree. -/
theorem consensus_iff {text : String} : (classifyNat probes).2 = some text ↔
    2 ≤ (publicAddrs probes).length ∧
      ∃ a, text = SocketAddr.toText a ∧ ∀ x ∈ publicAddrs probes, x = a := by
  rw [classifyNat_eq]
  constructor
  · intro h
    dsimp only at h
    split at h
    · next hcone =>
        obtain ⟨hlen, hsame⟩ := verdict_cone_iff.mp hcone
        obtain ⟨a, ha, rfl⟩ := Option.map_eq_some_iff.mp h
        refine ⟨hlen, a, rfl, fun x hx => ?_⟩
        by_contra hne
        exact hsame ⟨x, hx, a, List.mem_of_head? ha, hne⟩
    · cases h
  · rintro ⟨hlen, a, rfl, hall⟩
    have hcone : verdict (publicAddrs probes) = .cone := by
      refine verdict_cone_iff.mpr ⟨hlen, ?_⟩
      rintro ⟨x, hx, y, hy, hne⟩
      exact hne ((hall x hx).trans (hall y hy).symm)
    have hhead : (publicAddrs probes).head? = some a := by
      cases hl : publicAddrs probes with
      | nil =>
          rw [hl] at hlen
          cases hlen
      | cons x l =>
          have hx : x ∈ publicAddrs probes := by simp [hl]
          simp [hall x hx]
    simp only [hcone, if_true, hhead, Option.map_some]

/-- More probes, in whatever order, never make the verdict milder, and they do not change
the address that a verdict of agreement gives. -/
theorem classifyNat_mono (h : p.Subperm q) :
    (classifyNat p).1.severity ≤ (classifyNat q).1.severity ∧
      ∀ text, (classifyNat p).2 = some text → (classifyNat q).1 = .cone →
        (classifyNat q).2 = some text := by
  have hsub := publicAddrs_subperm h
  constructor
  · simpa only [classifyNat_eq] using verdict_mono hsub
  · intro text hp hq
    obtain ⟨hlen, a, rfl, hall⟩ := consensus_iff.mp hp
    rw [classifyNat_eq] at hq
    obtain ⟨hlen', hsame⟩ := verdict_cone_iff.mp hq
    refine consensus_iff.mpr ⟨hlen', a, rfl, fun x hx => ?_⟩
    obtain ⟨y, hy⟩ := List.exists_mem_of_length_pos (Nat.lt_of_lt_of_le Nat.zero_lt_two hlen)
    by_contra hne
    refine hsame ⟨x, hx, y, hsub.subset hy, fun heq => hne ?_⟩
    rw [← hall y hy]
    exact heq

/-! ## What the NAT does -/

/-- A probe of a destination, which sees the client under an address: the probe fails, or says
this address. -/
def Reports (sees : D → NetAddr) (d : D) (probe : NatProbeResult) : Prop :=
  probe.observedAddr = none ∨ probe.observedAddr = some (SocketAddr.toText (sees d))

/-- The public addresses under which destinations see the client. -/
def outside (sees : D → NetAddr) (ds : List D) : List NetAddr :=
  (ds.map sees).filter fun a => !isPrivateOrLoopback a

variable {sees : D → NetAddr} {ds relays servers : List D} {relayProbes stunProbes : List NatProbeResult}

theorem publicAddrs_reports (htext : ∀ d ∈ ds, SocketAddr.parse (SocketAddr.toText (sees d)) = some (sees d))
    (h : List.Forall₂ (Reports sees) ds probes) :
    (publicAddrs probes).Sublist (outside sees ds) ∧
      ((∀ p ∈ probes, p.observedAddr ≠ none) → publicAddrs probes = outside sees ds) := by
  induction h with
  | nil => exact ⟨List.Sublist.refl _, fun _ => rfl⟩
  | @cons d p ds probes hreport hrest ih =>
      obtain ⟨hsub, heq⟩ := ih fun d hd => htext d (List.mem_cons_of_mem _ hd)
      rcases hreport with hnone | hsome
      · have hskip : publicAddrs (p :: probes) = publicAddrs probes := by
          simp [publicAddrs, hnone]
        rw [hskip]
        refine ⟨hsub.trans ?_, fun hall => absurd hnone (hall p List.mem_cons_self)⟩
        exact (List.sublist_cons_self _ _).filter _
      · have hparse : p.observedAddr.bind SocketAddr.parse = some (sees d) := by
          rw [hsome]
          exact htext d List.mem_cons_self
        have hhead : publicAddrs (p :: probes) = [sees d].filter (fun a => !isPrivateOrLoopback a) ++
            publicAddrs probes := by
          simp only [publicAddrs, List.filterMap_cons, hparse, ← List.filter_append, List.singleton_append]
        have hout : outside sees (d :: ds) = [sees d].filter (fun a => !isPrivateOrLoopback a) ++
            outside sees ds := by
          simp only [outside, List.map_cons, ← List.filter_append, List.singleton_append]
        rw [hhead, hout]
        refine ⟨(List.Sublist.refl _).append hsub, fun hall => ?_⟩
        rw [heq fun p hp => hall p (List.mem_cons_of_mem _ hp)]

end

/-! ## A client behind a NAT -/

/-- Two public addresses of one host. -/
def natAddr (port : UInt16) : NetAddr := ⟨.v4 0xCB007105, port⟩

/-- The texts of these addresses. -/
@[reducible] def natText : SocketAddr NetAddr where
  toText a := if a = natAddr 4433 then "203.0.113.5:4433" else "203.0.113.5:51234"
  parse text := if text = "203.0.113.5:4433" then some (natAddr 4433)
    else if text = "203.0.113.5:51234" then some (natAddr 51234) else none

def probeOf (observed : Option String) : NatProbeResult := ⟨"relay", "198.51.100.9:4433", observed, none, none⟩

theorem two_relays_classified :
    (@classifyNat natText [probeOf (some "203.0.113.5:4433"), probeOf none]).1.severity ≤
        (@classifyNat natText [probeOf none, probeOf (some "203.0.113.5:51234"),
          probeOf (some "203.0.113.5:4433")]).1.severity ∧
      ∀ text, (@classifyNat natText [probeOf (some "203.0.113.5:4433"), probeOf none]).2 = some text →
        (@classifyNat natText [probeOf none, probeOf (some "203.0.113.5:51234"),
          probeOf (some "203.0.113.5:4433")]).1 = .cone →
        (@classifyNat natText [probeOf none, probeOf (some "203.0.113.5:51234"),
          probeOf (some "203.0.113.5:4433")]).2 = some text :=
  @classifyNat_mono natText _ _ (by decide)

end Wzp.Client
