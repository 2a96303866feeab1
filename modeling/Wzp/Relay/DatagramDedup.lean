import Wzp.Lib.Runs
import Wzp.Relay.Federation

/-!
# The duplicate filter over a sequence of datagrams

Within one lifetime of its entries the filter forgets nothing, so it drops a
datagram exactly if one with the same key was accepted before. What it tells
apart is therefore what the keys tell apart.
-/
namespace Wzp.Relay
open Bytes Proto Runs

namespace Deduplicator

/-- The filter holds the keys of one lifetime; all others have expired. -/
structure Remembers (d : Deduplicator) (keys : List UInt64) (start : ℕ) : Prop where
  seen : ∀ key ∈ keys, d.SeenSince key start
  only : ∀ e ∈ d.entries, e.2 + ttl ≤ start ∨ e.1 ∈ keys

variable {d : Deduplicator} {keys : List UInt64} {key : UInt64} {start now : ℕ}

theorem mem_of_lookup {l : List (UInt64 × ℕ)} {ts : ℕ} (h : l.lookup key = some ts) :
    (key, ts) ∈ l := by
  obtain ⟨l₁, l₂, rfl, _⟩ := List.lookup_eq_some_iff.mp h
  exact List.mem_append_right l₁ List.mem_cons_self

theorem cleanup_subset {e : UInt64 × ℕ} (h : e ∈ (d.cleanup now).entries) : e ∈ d.entries := by
  rw [cleanup] at h
  split at h
  · exact List.mem_of_mem_filter h
  · exact h

theorem isDup_subset {e : UInt64 × ℕ} (h : e ∈ (d.isDup key now).2.entries) :
    e ∈ d.entries ∨ e = (key, now) := by
  have hinsert : e ∈ ((d.cleanup now).insert key now).entries → e ∈ d.entries ∨ e = (key, now) := by
    intro h
    rcases List.mem_cons.mp h with rfl | h
    · exact Or.inr rfl
    · exact Or.inl (cleanup_subset (List.mem_of_mem_filter h))
  simp only [isDup] at h
  split at h
  · split at h
    · exact Or.inl (cleanup_subset h)
    · exact hinsert h
  · exact hinsert h

/-- Within the lifetime a key is a duplicate exactly if it is remembered. -/
theorem Remembers.isDup_iff (h : d.Remembers keys start) (hle : start ≤ now)
    (hnow : now < start + ttl) : (d.isDup key now).1 = true ↔ key ∈ keys := by
  constructor
  · intro hdup
    simp only [isDup] at hdup
    split at hdup
    · rename_i ts hts
      rcases h.only _ (cleanup_subset (mem_of_lookup hts)) with hold | hkey
      · split at hdup
        · rename_i hlive
          dsimp only at hold
          omega
        · exact absurd hdup Bool.false_ne_true
      · exact hkey
    · exact absurd hdup Bool.false_ne_true
  · intro hkey
    exact isDup_of_seen (h.seen key hkey) hnow

theorem Remembers.drop (h : d.Remembers keys start) (hle : start ≤ now)
    (hnow : now < start + ttl) (hdup : (d.isDup key now).1 = true) :
    (d.isDup key now).2.Remembers keys start := by
  refine ⟨fun k hk => (h.seen k hk).isDup hle hnow key, fun e he => ?_⟩
  rcases isDup_subset he with hold | rfl
  · exact h.only e hold
  · exact Or.inr ((h.isDup_iff hle hnow).mp hdup)

theorem Remembers.accept (h : d.Remembers keys start) (hle : start ≤ now)
    (hnow : now < start + ttl) (hnew : (d.isDup key now).1 = false) :
    (d.isDup key now).2.Remembers (key :: keys) start := by
  refine ⟨fun k hk => ?_, fun e he => ?_⟩
  · rcases List.mem_cons.mp hk with rfl | hk
    · exact seen_of_isDup hle hnew
    · exact (h.seen k hk).isDup hle hnow key
  · rcases isDup_subset he with hold | rfl
    · exact (h.only e hold).imp_right (List.mem_cons_of_mem _)
    · exact Or.inr List.mem_cons_self

end Deduplicator

/-! ## Sequences of datagrams -/

/-- A datagram from a peer, with the time it arrives. -/
structure Arrival (ι : Type) where
  source : ι
  now : ℕ
  data : Buf
  deriving DecidableEq, Repr

/-- Long enough, with a packet behind the room hash. -/
def Parseable (data : Buf) : Prop := 12 ≤ data.length ∧ (MediaPacket.fromBytes (data.drop 8)).isSome

instance (data : Buf) : Decidable (Parseable data) :=
  inferInstanceAs (Decidable (_ ∧ _))

/-- The key under which the filter knows a datagram. -/
def arrivalKey (data : Buf) : UInt64 :=
  match MediaPacket.fromBytes (data.drop 8) with
  | some pkt => FederationManager.datagramKey data pkt
  | none => 0

/-- Datagrams with different bytes have different keys. -/
def DistinctKeys (datagrams : List Buf) : Prop :=
  ∀ a ∈ datagrams, ∀ b ∈ datagrams, arrivalKey a = arrivalKey b → a = b

instance (datagrams : List Buf) : Decidable (DistinctKeys datagrams) :=
  inferInstanceAs (Decidable (∀ a ∈ datagrams, ∀ b ∈ datagrams, arrivalKey a = arrivalKey b → a = b))

/-- A relay and the datagrams its filter has accepted. -/
structure DedupLog (ι : Type) where
  manager : FederationManager ι
  accepted : List Buf

namespace DedupLog
variable {ι : Type} [DecidableEq ι] (sha : Hash)

def handle (s : DedupLog ι) (a : Arrival ι) : Handled ι :=
  s.manager.handleDatagram sha a.source a.now a.data

def step (s : DedupLog ι) (a : Arrival ι) : DedupLog ι :=
  { manager := (s.handle sha a).manager
    accepted := if (s.handle sha a).ingress = .dedupDrop then s.accepted else a.data :: s.accepted }

/-- The datagram is dropped as a duplicate exactly if the same room hash and
media were accepted before. -/
def DropExact (s : DedupLog ι) (a : Arrival ι) : Prop :=
  (s.handle sha a).ingress = .dedupDrop ↔ a.data ∈ s.accepted

instance (s : DedupLog ι) (a : Arrival ι) : Decidable (DropExact sha s a) :=
  inferInstanceAs (Decidable (_ ↔ _))

/-- The filter remembers the accepted datagrams, no two of them by one key. -/
structure Faithful (s : DedupLog ι) (start : ℕ) : Prop where
  remembers : s.manager.dedup.Remembers (s.accepted.map arrivalKey) start
  distinct : DistinctKeys s.accepted

variable {sha} {s : DedupLog ι} {a : Arrival ι} {start : ℕ}

theorem handleDatagram_drop_iff (sha : Hash) (fm : FederationManager ι) {data : Buf}
    (h : Parseable data) (source : ι) (now : ℕ) :
    (fm.handleDatagram sha source now data).ingress = .dedupDrop ↔
      (fm.dedup.isDup (arrivalKey data) now).1 = true := by
  obtain ⟨hlen, hparse⟩ := h
  obtain ⟨pkt, hpkt⟩ := Option.isSome_iff_exists.mp hparse
  have hcheck : ((fm.touch source now).checkDup (FederationManager.datagramKey data pkt) now).1 =
      (fm.dedup.isDup (arrivalKey data) now).1 := by
    rw [arrivalKey, hpkt]
    rfl
  rw [FederationManager.datagramKey] at hcheck
  simp only [FederationManager.handleDatagram, hpkt, if_neg (Nat.not_lt.mpr hlen), hcheck]
  cases (fm.dedup.isDup (arrivalKey data) now).1 with
  | true => simp only [if_true, FederationManager.drop]
  | false =>
      simp only [Bool.false_eq_true, if_false, iff_false]
      split
      · exact Ingress.noConfusion
      · split
        · exact Ingress.noConfusion
        · exact Ingress.noConfusion

theorem handleDatagram_dedup (sha : Hash) (fm : FederationManager ι) {data : Buf}
    (h : Parseable data) (source : ι) (now : ℕ) : (fm.handleDatagram sha source now data).manager.dedup =
      (fm.dedup.isDup (arrivalKey data) now).2 := by
  obtain ⟨hlen, hparse⟩ := h
  obtain ⟨pkt, hpkt⟩ := Option.isSome_iff_exists.mp hparse
  simp only [FederationManager.handleDatagram, hpkt, if_neg (Nat.not_lt.mpr hlen), arrivalKey]
  split
  · rfl
  · split
    · rfl
    · split
      · rfl
      · rfl

theorem Faithful.drop_iff (h : Faithful s start) (hparse : Parseable a.data) (hle : start ≤ a.now)
    (hnow : a.now < start + Deduplicator.ttl) : (s.handle sha a).ingress = .dedupDrop ↔
      ∃ b ∈ s.accepted, arrivalKey b = arrivalKey a.data := by
  rw [handle, handleDatagram_drop_iff sha s.manager hparse, h.remembers.isDup_iff hle hnow, List.mem_map]

/-- Both outcomes keep the filter faithful. -/
theorem Faithful.step (sha : Hash) (h : Faithful s start) (hparse : Parseable a.data)
    (hle : start ≤ a.now) (hnow : a.now < start + Deduplicator.ttl) : Faithful (s.step sha a) start := by
  have hiff := handleDatagram_drop_iff sha s.manager hparse a.source a.now
  have hdedup := handleDatagram_dedup sha s.manager hparse a.source a.now
  by_cases hdrop : (s.handle sha a).ingress = .dedupDrop
  · refine ⟨?_, ?_⟩
    · simp only [DedupLog.step, if_pos hdrop]
      rw [handle, hdedup]
      exact h.remembers.drop hle hnow (hiff.mp hdrop)
    · simp only [DedupLog.step, if_pos hdrop]
      exact h.distinct
  · have hnew := (Bool.not_eq_true _).mp (mt hiff.mpr hdrop)
    have hother : ∀ b ∈ s.accepted, arrivalKey b ≠ arrivalKey a.data := fun b hb heq =>
      hdrop ((h.drop_iff hparse hle hnow).mpr ⟨b, hb, heq⟩)
    refine ⟨?_, ?_⟩
    · simp only [DedupLog.step, if_neg hdrop]
      rw [handle, hdedup]
      exact h.remembers.accept hle hnow hnew
    · simp only [DedupLog.step, if_neg hdrop]
      intro b hb c hc heq
      rcases List.mem_cons.mp hb with rfl | hb
      · rcases List.mem_cons.mp hc with rfl | hc
        · rfl
        · exact absurd heq.symm (hother c hc)
      · rcases List.mem_cons.mp hc with rfl | hc
        · exact absurd heq (hother b hb)
        · exact h.distinct b hb c hc heq

/-- What exactness of one drop adds to the keys that are told apart. -/
theorem Faithful.dropExact_iff (h : Faithful s start) (hparse : Parseable a.data)
    (hle : start ≤ a.now) (hnow : a.now < start + Deduplicator.ttl) :
    DropExact sha s a ↔ ∀ b ∈ s.accepted, arrivalKey b = arrivalKey a.data → b = a.data := by
  rw [DropExact, h.drop_iff hparse hle hnow]
  constructor
  · intro hiff b hb heq
    exact h.distinct b hb _ (hiff.mp ⟨b, hb, heq⟩) heq
  · intro hsame
    constructor
    · rintro ⟨b, hb, heq⟩
      exact hsame b hb heq ▸ hb
    · intro hmem
      exact ⟨a.data, hmem, rfl⟩

/-- What the filter knows after a datagram: the datagram and all before. -/
theorem DropExact.mem_step (hexact : DropExact sha s a) (data : Buf) :
    data ∈ (s.step sha a).accepted ↔ data = a.data ∨ data ∈ s.accepted := by
  by_cases hdrop : (s.handle sha a).ingress = .dedupDrop
  · simp only [DedupLog.step, if_pos hdrop]
    constructor
    · exact Or.inr
    · rintro (rfl | hmem)
      · exact hexact.mp hdrop
      · exact hmem
  · simp only [DedupLog.step, if_neg hdrop, List.mem_cons]

theorem eachStep_dropExact_iff (sha : Hash) (h : Faithful s start) {as : List (Arrival ι)}
    (hparse : ∀ a ∈ as, Parseable a.data)
    (htime : ∀ a ∈ as, start ≤ a.now ∧ a.now < start + Deduplicator.ttl) :
    EachStep (DedupLog.step sha) (DropExact sha) s as ↔
      DistinctKeys (as.map Arrival.data ++ s.accepted) := by
  induction as generalizing s with
  | nil => exact ⟨fun _ => h.distinct, fun _ => trivial⟩
  | cons a as ih =>
      obtain ⟨hpa, hpas⟩ := List.forall_mem_cons.mp hparse
      obtain ⟨⟨hle, hnow⟩, htas⟩ := List.forall_mem_cons.mp htime
      have hrest := ih (h.step sha hpa hle hnow) hpas htas
      -- the datagrams named by both sides are the same once `a` was dropped rightly
      have hmem : DropExact sha s a → ∀ data, data ∈ as.map Arrival.data ++ (s.step sha a).accepted ↔
          data ∈ (a :: as).map Arrival.data ++ s.accepted := by
        intro hexact data
        simp only [List.map_cons, List.mem_append, List.mem_cons, hexact.mem_step, or_assoc]
        exact or_left_comm
      constructor
      · rintro ⟨hexact, heach⟩ b hb c hc
        exact hrest.mp heach b ((hmem hexact b).mpr hb) c ((hmem hexact c).mpr hc)
      · intro hdistinct
        have hexact : DropExact sha s a := (h.dropExact_iff hpa hle hnow).mpr fun b hb heq =>
          hdistinct b (List.mem_append_right _ hb) a.data List.mem_cons_self heq
        refine ⟨hexact, hrest.mpr fun b hb c hc => ?_⟩
        exact hdistinct b ((hmem hexact b).mp hb) c ((hmem hexact c).mp hc)

variable (sha)

/-- From a filter whose entries have expired, datagrams that arrive within one
lifetime are dropped exactly as duplicates exactly if their keys tell them apart. -/
theorem dedup_exact_iff {fm : FederationManager ι} {start : ℕ}
    (hstale : ∀ e ∈ fm.dedup.entries, e.2 + Deduplicator.ttl ≤ start) {as : List (Arrival ι)}
    (hparse : ∀ a ∈ as, Parseable a.data)
    (htime : ∀ a ∈ as, start ≤ a.now ∧ a.now < start + Deduplicator.ttl) :
    EachStep (step sha) (DropExact sha) ⟨fm, []⟩ as ↔ DistinctKeys (as.map Arrival.data) := by
  have hfaithful : Faithful ⟨fm, []⟩ start :=
    ⟨⟨fun key hkey => absurd hkey List.not_mem_nil, fun e he => Or.inl (hstale e he)⟩,
      fun a ha => absurd ha List.not_mem_nil⟩
  have hiff := eachStep_dropExact_iff sha hfaithful hparse htime
  rw [List.append_nil] at hiff
  exact hiff

end DedupLog

/-! ## Packets that differ in their payload only -/

/-- The first 16 bytes of the media are the header, so the payload never enters
the key. -/
theorem arrivalKey_payload {rh : Buf} (hrh : rh.length = 8) {h : MediaHeader}
    (hv : h.version = MediaHeader.versionByte) (hq : h.hasQuality = false) (body : Buf) :
    arrivalKey (rh ++ (h.writeTo ++ body)) =
      Deduplicator.keyOf rh h.seq (payloadHash h.writeTo) := by
  have hdrop : (rh ++ (h.writeTo ++ body)).drop 8 = h.writeTo ++ body := List.drop_left' hrh
  have htake : (rh ++ (h.writeTo ++ body)).take 8 = rh := List.take_left' hrh
  have hhead : (h.writeTo ++ body).take 16 = h.writeTo := List.take_left' h.writeTo_length
  have hself : h.writeTo.take 16 = h.writeTo := rfl
  simp only [arrivalKey, hdrop, MediaPacket.fromBytes_plain hv hq, FederationManager.datagramKey,
    htake, payloadHash, hhead, hself]

/-- Two senders: the same sequence number and timestamp, different payloads. -/
def sampleArrivals : List (Arrival (Fin 3)) :=
  [⟨Fin.last 2, 0, roomHash Triangle.sha Triangle.conf ++ ([2, 0, 0, 0, 0, 0] ++
      List.replicate 10 0 ++ [1])⟩,
    ⟨Fin.last 2, 20, roomHash Triangle.sha Triangle.conf ++ ([2, 0, 0, 0, 0, 0] ++
      List.replicate 10 0 ++ [2])⟩]

/-- The second packet is dropped as a duplicate of the first. -/
theorem payloads_confused :
    (∀ a ∈ sampleArrivals, Parseable a.data) ∧
      ¬ EachStep (DedupLog.step Triangle.sha) (DedupLog.DropExact Triangle.sha)
        ⟨Triangle.relay 0, []⟩ sampleArrivals := by
  decide

/-- The same payload twice under one sequence number, then under the next. -/
def numberedArrivals : List (Arrival (Fin 3)) :=
  [⟨Fin.last 2, 5, roomHash Triangle.sha Triangle.conf ++ ([2, 0, 0, 0, 0, 0, 0, 0, 0, 1] ++
      List.replicate 6 0 ++ [7])⟩,
    ⟨Fin.last 2, 20, roomHash Triangle.sha Triangle.conf ++ ([2, 0, 0, 0, 0, 0, 0, 0, 0, 1] ++
      List.replicate 6 0 ++ [7])⟩,
    ⟨Fin.last 2, 40, roomHash Triangle.sha Triangle.conf ++ ([2, 0, 0, 0, 0, 0, 0, 0, 0, 2] ++
      List.replicate 6 0 ++ [7])⟩]

theorem dedup_exact_iff_numbered :
    EachStep (DedupLog.step Triangle.sha) (DedupLog.DropExact Triangle.sha) ⟨Triangle.relay 0, []⟩
      numberedArrivals :=
  (@DedupLog.dedup_exact_iff (Fin 3) _ Triangle.sha (Triangle.relay 0) 0 (by decide)
    numberedArrivals (by decide) (by decide)).mpr (by decide)

end Wzp.Relay
