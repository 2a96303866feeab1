import Wzp.Relay.MediaEcho

/-!
# Every reachable relay gets the media

A run in which no copy of a packet is lost, no relay is given more datagrams than
its rate limit lets through and no other datagram has the packet's key: once no
copy is left, every participant behind the reachable relays has got the packet,
and got it once.
-/
namespace Wzp.Relay
open Bytes Proto FederationManager

/-! ## What stands between a datagram and its room -/
namespace Deduplicator
variable {d : Deduplicator} {key other : UInt64} {now : ℕ}

def Unseen (d : Deduplicator) (key : UInt64) : Prop := d.entries.lookup key = none

theorem lookup_filter_none {l : List (UInt64 × ℕ)} (p : UInt64 × ℕ → Bool)
    (h : l.lookup key = none) : (l.filter p).lookup key = none := by
  induction l with
  | nil => rfl
  | cons e l ih =>
      obtain ⟨k, t⟩ := e
      rw [List.lookup_cons] at h
      by_cases hk : (key == k) = true
      · rw [hk] at h
        exact nomatch h
      · rw [(Bool.not_eq_true _).mp hk] at h
        rw [List.filter_cons]
        split
        · rw [List.lookup_cons, (Bool.not_eq_true _).mp hk]
          exact ih h
        · exact ih h

theorem Unseen.cleanup (h : d.Unseen key) (now : ℕ) : (d.cleanup now).Unseen key := by
  rw [Deduplicator.cleanup]
  split
  · exact lookup_filter_none _ h
  · exact h

theorem isDup_of_unseen (h : d.Unseen key) (now : ℕ) : (d.isDup key now).1 = false := by
  have hnone : (d.cleanup now).entries.lookup key = none := h.cleanup now
  simp only [isDup, hnone]

/-- Another key leaves the filter without this one. -/
theorem Unseen.isDup (h : d.Unseen key) (now : ℕ) (hne : other ≠ key) :
    (d.isDup other now).2.Unseen key := by
  have hclean := h.cleanup now
  have hinsert : ((d.cleanup now).insert other now).Unseen key := by
    rw [Unseen, Deduplicator.insert, List.lookup_cons, beq_false_of_ne hne.symm]
    exact lookup_filter_none _ hclean
  simp only [Deduplicator.isDup]
  split
  · split
    · exact hclean
    · exact hinsert
  · exact hinsert

end Deduplicator

namespace FederationManager
variable {ι : Type} {fm : FederationManager ι} {n : ℕ}

/-- All rooms of the relay have at least `n` packets left in their second. -/
structure Budget (fm : FederationManager ι) (n : ℕ) : Prop where
  fits : n ≤ federationRateLimitPps.toNat
  limiters : ∀ room l, fm.rateLimiters room = some l →
    l.maxPps = federationRateLimitPps ∧ n ≤ l.tokens.toNat

theorem Budget.mono {m : ℕ} (h : fm.Budget n) (hm : m ≤ n) : fm.Budget m :=
  ⟨hm.trans h.fits, fun room l hl => ⟨(h.limiters room l hl).1, hm.trans (h.limiters room l hl).2⟩⟩

theorem budget_unused (h : ∀ room, fm.rateLimiters room = none)
    (hn : n ≤ federationRateLimitPps.toNat) : fm.Budget n :=
  ⟨hn, fun room l hl => absurd (hl.symm.trans (h room)) (by simp)⟩

/-- A limiter with a packet left lets one through, and has at least the rest. -/
theorem allow_of_tokens {l : RateLimiter} (hmax : l.maxPps = federationRateLimitPps)
    (htokens : n + 1 ≤ l.tokens.toNat) (hfits : n + 1 ≤ federationRateLimitPps.toNat) (now : ℕ) :
    (l.allow now).1 = true ∧ (l.allow now).2.maxPps = federationRateLimitPps ∧
      n ≤ (l.allow now).2.tokens.toNat := by
  have hspend : ∀ t : UInt32, n + 1 ≤ t.toNat → 0 < t ∧ n ≤ (t - 1).toNat := by
    intro t ht
    have hone : (1 : UInt32) ≤ t := UInt32.le_iff_toNat_le.mpr ((Nat.le_add_left 1 n).trans ht)
    refine ⟨UInt32.lt_iff_toNat_lt.mpr (Nat.lt_of_lt_of_le (Nat.succ_pos n) ht), ?_⟩
    rw [UInt32.toNat_sub_of_le _ _ hone]
    exact Nat.le_sub_of_add_le ht
  by_cases hreset : 1000 ≤ now - l.windowStart
  · obtain ⟨hpos, hrest⟩ := hspend l.maxPps (hmax ▸ hfits)
    simp only [RateLimiter.allow, if_pos hreset, if_pos hpos]
    exact ⟨trivial, hmax, hrest⟩
  · obtain ⟨hpos, hrest⟩ := hspend l.tokens htokens
    simp only [RateLimiter.allow, if_neg hreset, if_pos hpos]
    exact ⟨trivial, hmax, hrest⟩

theorem allowRoom_of_budget (h : fm.Budget (n + 1)) (room : RoomName) (now : ℕ) :
    (fm.allowRoom room now).1 = true ∧ (fm.allowRoom room now).2.Budget n := by
  have hlimiter : ((fm.rateLimiters room).getD (.new federationRateLimitPps now)).maxPps =
        federationRateLimitPps ∧
      n + 1 ≤ ((fm.rateLimiters room).getD (.new federationRateLimitPps now)).tokens.toNat := by
    cases hl : fm.rateLimiters room with
    | none => exact ⟨rfl, h.fits⟩
    | some l => exact h.limiters room l hl
  obtain ⟨hallow, hmax, htokens⟩ := allow_of_tokens hlimiter.1 hlimiter.2 h.fits now
  refine ⟨hallow, (Nat.le_succ n).trans h.fits, ?_⟩
  intro other l hl
  simp only [allowRoom] at hl
  by_cases ho : other = room
  · rw [ho, Function.update_self] at hl
    rw [← Option.some.inj hl]
    exact ⟨hmax, htokens⟩
  · rw [Function.update_of_ne ho] at hl
    exact (h.mono (Nat.le_succ n)).limiters other l hl

variable [DecidableEq ι] {sha : Hash} {source : ι} {now : ℕ} {data : Buf}

/-- One datagram costs each room at most one packet. -/
theorem handleDatagram_budget (h : fm.Budget (n + 1)) :
    (fm.handleDatagram sha source now data).manager.Budget n := by
  have hless := h.mono (Nat.le_succ n)
  have hchecked : ∀ key, ((fm.touch source now).checkDup key now).2.Budget (n + 1) :=
    fun key => ⟨h.fits, h.limiters⟩
  simp only [handleDatagram]
  split
  · exact hless
  · split
    · exact hless
    · split
      · exact (hchecked _).mono (Nat.le_succ n)
      · split
        · exact (hchecked _).mono (Nat.le_succ n)
        · split
          · exact (allowRoom_of_budget (hchecked _) _ now).2
          · exact (allowRoom_of_budget (hchecked _) _ now).2

/-- The filter is asked about the datagram's own key, if at all. -/
theorem handleDatagram_dedup (sha : Hash) (fm : FederationManager ι) (source : ι) (now : ℕ)
    (data : Buf) :
    (fm.handleDatagram sha source now data).manager.dedup = fm.dedup ∨
      ∃ pkt, MediaPacket.fromBytes (data.drop 8) = some pkt ∧
        (fm.handleDatagram sha source now data).manager.dedup =
          (fm.dedup.isDup (datagramKey data pkt) now).2 := by
  simp only [handleDatagram]
  split
  · exact Or.inl rfl
  · split
    · exact Or.inl rfl
    · rename_i pkt hparse
      right
      refine ⟨pkt, hparse, ?_⟩
      split
      · rfl
      · split
        · rfl
        · split
          · rfl
          · rfl

/-- With a new key, a room and a packet left, the datagram is accepted. -/
theorem accepts_of_budget {pkt : MediaPacket} {room : RoomName} (h : fm.Budget (n + 1))
    (hlen : 12 ≤ data.length) (hparse : MediaPacket.fromBytes (data.drop 8) = some pkt)
    (hnew : (fm.dedup.isDup (datagramKey data pkt) now).1 = false)
    (hroom : fm.findRoom sha (data.take 8) = some room) :
    ∃ pkt room, Accepts sha fm source now data pkt room
      (fm.handleDatagram sha source now data) := by
  rcases handleDatagram_cases sha fm source now data with hacc | hdrop
  · exact hacc
  · have hchecked : ((fm.touch source now).checkDup (datagramKey data pkt) now).1 = false := hnew
    have hfound := ((sameSetup_checked fm source (datagramKey data pkt) now).findRoom sha
      (data.take 8)).trans hroom
    have hbudget : ((fm.touch source now).checkDup (datagramKey data pkt) now).2.Budget (n + 1) :=
      ⟨h.fits, h.limiters⟩
    have hallow := (allowRoom_of_budget hbudget room now).1
    rw [datagramKey] at hchecked hfound hallow
    have hdeliver : (fm.handleDatagram sha source now data).ingress = .localDeliver room := by
      simp only [handleDatagram, hparse, hchecked, hfound, hallow,
        if_neg (Nat.not_lt.mpr hlen), Bool.false_eq_true, if_false, if_true]
    exact absurd hdeliver (hdrop.ingress room)

end FederationManager

/-! ## Runs that refuse the packet to no relay -/

/-- How many datagrams a relay is given. -/
def MediaEvent.deliversTo {ι : Type} [DecidableEq ι] (i : ι) : MediaEvent ι → Bool
  | .deliver copy => copy.destination = i
  | .send _ _ _ _ | .lose _ => false

namespace Flight
variable {ι : Type} [DecidableEq ι] {f : Flight ι} {direct : List (ι × ParticipantId)}
  {net : MediaNetwork ι} {now : ℕ} {copy : Copy ι} {origin : ι}

def load (events : List (ℕ × MediaEvent ι)) (i : ι) : ℕ := events.countP (·.2.deliversTo i)

/-- An event that neither loses the packet nor brings another one with its key. -/
def Spares (f : Flight ι) : MediaEvent ι → Prop
  | .send _ _ _ _ => True
  | .lose copy => copy.packet ≠ f.packet
  | .deliver copy => copy.packet = f.packet ∨
      ∀ pkt, MediaPacket.fromBytes (copy.datagram.drop 8) = some pkt →
        datagramKey copy.datagram pkt ≠ f.key

/-- A relay has met the packet's key only with the packet, and can still take as
many datagrams as it is given. -/
structure Served (f : Flight ι) (load : ι → ℕ) (net : MediaNetwork ι) : Prop where
  recorded : ∀ i, (net.relays i).dedup.Unseen f.key ∨ i ∈ net.acceptors f.packet ∨ f.room? i = none
  budget : ∀ i, (net.relays i).Budget (load i)

theorem load_cons (e : ℕ × MediaEvent ι) (events : List (ℕ × MediaEvent ι)) (i : ι) :
    load (e :: events) i = load events i + if e.2.deliversTo i then 1 else 0 := by
  rw [load, load, List.countP_cons]

/-- A copy of the packet that is delivered has been accepted, unless its relay
does not know the room. -/
theorem accepted_of_deliver (now : ℕ) (hf : f.Proper) (h : f.Tracked direct net) {load : ι → ℕ}
    (hs : f.Served load net) (hpos : 0 < load copy.destination) (hc : copy ∈ net.inFlight)
    (hk : copy.packet = f.packet) {room : RoomName} (hroom : f.room? copy.destination = some room)
    (hnew : copy.destination ∉ net.acceptors f.packet) :
    ∃ pkt room, Accepts f.sha (net.relays copy.destination) copy.source now copy.datagram pkt room
      ((net.relays copy.destination).handleDatagram f.sha copy.source now copy.datagram) := by
  have hdata := h.carried copy hc hk
  have hunseen : (net.relays copy.destination).dedup.Unseen f.key := by
    rcases hs.recorded copy.destination with hu | hacc | hnone
    · exact hu
    · exact absurd hacc hnew
    · rw [hroom] at hnone
      exact nomatch hnone
  obtain ⟨n, hn⟩ : ∃ n, load copy.destination = n + 1 := ⟨_, (Nat.succ_pred hpos.ne').symm⟩
  rw [hdata]
  refine accepts_of_budget (hn ▸ hs.budget copy.destination) hf.length hf.parse
    (Deduplicator.isDup_of_unseen hunseen now) (?_ : _ = some room)
  rw [hf.take, (h.setup copy.destination).findRoom]
  exact hroom

/-- Delivering a datagram keeps the relays served, at the cost of one. -/
theorem served_deliver (h : f.Tracked direct net) {load : ι → ℕ}
    (hs : f.Served (fun i => load i + if copy.destination = i then 1 else 0) net)
    (hspares : f.Spares (.deliver copy)) (hf : f.Proper) (hc : copy ∈ net.inFlight) :
    f.Served load (net.deliver f.sha now copy) := by
  have hgrow : ∀ i ∈ net.acceptors f.packet,
      i ∈ (net.deliver f.sha now copy).acceptors f.packet := by
    intro i hi
    rcases handleDatagram_cases f.sha (net.relays copy.destination) copy.source now
      copy.datagram with ⟨pkt, room, hacc⟩ | hdrop
    · rw [(MediaNetwork.deliver_accepts hacc f.packet).1]
      exact List.mem_append_left _ hi
    · rw [(MediaNetwork.deliver_drops hdrop f.packet).1]
      exact hi
  refine ⟨?_, ?_⟩
  · intro i
    by_cases hi : copy.destination = i
    · subst hi
      by_cases hnone : f.room? copy.destination = none
      · exact Or.inr (Or.inr hnone)
      by_cases hacc : copy.destination ∈ net.acceptors f.packet
      · exact Or.inr (Or.inl (hgrow _ hacc))
      obtain ⟨room, hroom⟩ := Option.ne_none_iff_exists'.mp hnone
      rcases hspares with hk | hother
      · right
        left
        obtain ⟨pkt, room', hacc'⟩ := accepted_of_deliver now hf h hs (by simp) hc hk hroom hacc
        rw [(MediaNetwork.deliver_accepts hacc' f.packet).1, if_pos hk]
        exact List.mem_append_right _ (List.mem_singleton_self _)
      · left
        have hunseen := ((hs.recorded copy.destination).resolve_right
          fun hor => hor.elim hacc hnone)
        simp only [MediaNetwork.deliver, Function.update_self]
        rcases handleDatagram_dedup f.sha (net.relays copy.destination) copy.source now
          copy.datagram with hsame | ⟨pkt, hparse, hnext⟩
        · rw [hsame]
          exact hunseen
        · rw [hnext]
          exact hunseen.isDup now (hother pkt hparse)
    · rcases hs.recorded i with hu | hacc | hnone
      · left
        simp only [MediaNetwork.deliver]
        rw [Function.update_of_ne (Ne.symm hi)]
        exact hu
      · exact Or.inr (Or.inl (hgrow i hacc))
      · exact Or.inr (Or.inr hnone)
  · intro i
    have hbudget := hs.budget i
    simp only [MediaNetwork.deliver]
    by_cases hi : copy.destination = i
    · subst hi
      rw [if_pos rfl] at hbudget
      rw [Function.update_self]
      exact handleDatagram_budget hbudget
    · rw [if_neg hi] at hbudget
      rw [Function.update_of_ne (Ne.symm hi)]
      exact hbudget

/-! ## The flood of such a run -/

omit [DecidableEq ι] in
/-- A step that the flood does not notice, or in which copies disappear at relays
that have accepted or cannot. -/
theorem conserves_drop {net' : MediaNetwork ι}
    (hacc : net'.acceptors f.packet = net.acceptors f.packet)
    (hless : ∀ c ∈ net'.inFlight, c.packet = f.packet → c ∈ net.inFlight)
    (hkeep : ∀ c ∈ net.inFlight, c.packet = f.packet → c ∈ net'.inFlight ∨
      c.destination ∈ net.acceptors f.packet ∨ f.room? c.destination = none) :
    Flood.Conserves f.Linked f.knowing origin (f.flood net) (f.flood net') := by
  have hsame : (f.flood net').accepted = (f.flood net).accepted := by
    simp only [flood, hacc]
  refine ⟨hsame.ge, ?_, ?_, ?_⟩
  · rintro a b ⟨c, hc, hk, hab⟩
    obtain ⟨rfl, rfl⟩ := Prod.mk.inj hab
    rcases hkeep c hc hk with hstay | hdone | hnone
    · exact Or.inl ⟨c, hstay, hk, rfl⟩
    · exact Or.inr (Or.inl (hsame ▸ hdone))
    · right
      right
      simp only [knowing, Set.mem_ofPred_eq, hnone, Option.isSome_none, Bool.false_eq_true,
        not_false_eq_true]
  · rintro a b ⟨c, hc, hk, hab⟩
    exact Or.inl ⟨c, hless c hc hk, hk, hab⟩
  · intro a ha hnew
    exact absurd (hsame ▸ ha) hnew

omit [DecidableEq ι] in
theorem mem_erase_or {c : Copy ι} [DecidableEq (Copy ι)] {copies : List (Copy ι)}
    (hc : c ∈ copies) (copy : Copy ι) : c ∈ copies.erase copy ∨ c = copy := by
  by_cases hne : c = copy
  · exact Or.inr hne
  · exact Or.inl ((List.mem_erase_of_ne hne).mpr hc)

/-- A copy of the packet that is delivered is accepted and sent on, or its relay
has it or cannot take it. -/
theorem conserves_copy (hf : f.Proper) (h : f.Tracked direct net) {load : ι → ℕ}
    (hs : f.Served load net) (hpos : 0 < load copy.destination)
    (hcover : Flood.Covering f.Linked f.knowing origin (f.flood net))
    (hnow : now < f.start + Deduplicator.ttl) (hc : copy ∈ net.inFlight)
    (hk : copy.packet = f.packet) :
    Flood.Conserves f.Linked f.knowing origin (f.flood net)
      (f.flood (net.deliver f.sha now copy)) := by
  rcases handleDatagram_cases f.sha (net.relays copy.destination) copy.source now
    copy.datagram with ⟨pkt, room, hacc⟩ | hdrop
  · obtain ⟨hacceptors, -, hfly⟩ := MediaNetwork.deliver_accepts hacc f.packet
    rw [if_pos hk] at hacceptors
    obtain ⟨-, hnew, -⟩ := accepts_carried hf h hc hk hacc
    have hfirst := notMem_acceptors h hnow hnew
    refine ⟨?_, ?_, ?_, ?_⟩
    · intro i hi
      simp only [flood, Set.mem_ofPred_eq, hacceptors]
      exact List.mem_append_left _ hi
    · rintro a b ⟨c, hmem, hck, hab⟩
      rcases mem_erase_or hmem copy with hstay | rfl
      · left
        exact ⟨c, hfly ▸ List.mem_append_left _ hstay, hck, hab⟩
      · right
        left
        simp only [flood, Set.mem_ofPred_eq, hacceptors, (Prod.mk.inj hab).2.symm]
        exact List.mem_append_right _ (List.mem_singleton_self _)
    · rintro a b ⟨c, hmem, hck, hab⟩
      rw [hfly] at hmem
      rcases List.mem_append.mp hmem with hmem | hmem
      · exact Or.inl ⟨c, List.mem_of_mem_erase hmem, hck, hab⟩
      · obtain ⟨fp, -, rfl⟩ := List.mem_map.mp hmem
        right
        right
        simp only [flood, Set.mem_ofPred_eq, hacceptors, (Prod.mk.inj hab).1.symm]
        exact List.mem_append_right _ (List.mem_singleton_self _)
    · intro a ha hold
      simp only [flood, Set.mem_ofPred_eq, hacceptors] at ha hold
      obtain rfl := List.mem_singleton.mp ((List.mem_append.mp ha).resolve_left hold)
      refine ⟨copy.source, hcover.carried _ copy.destination ⟨copy, hc, hk, rfl⟩, ?_⟩
      intro b hlink hback
      refine ⟨⟨copy.packet, copy.destination, b, copy.datagram⟩, ?_, hk, rfl⟩
      rw [hfly]
      refine List.mem_append_right _ (List.mem_map.mpr ⟨b, ?_, rfl⟩)
      rw [(h.setup copy.destination).peers]
      exact List.mem_filter.mpr ⟨hlink, decide_eq_true hback⟩
  · obtain ⟨hacceptors, -, hfly⟩ := MediaNetwork.deliver_drops hdrop f.packet
    refine conserves_drop hacceptors ?_ ?_
    · intro c hmem _
      rw [hfly] at hmem
      exact List.mem_of_mem_erase hmem
    · intro c hmem _
      rcases mem_erase_or hmem copy with hstay | rfl
      · exact Or.inl (hfly ▸ hstay)
      · right
        by_cases hdone : c.destination ∈ net.acceptors f.packet
        · exact Or.inl hdone
        · right
          by_contra hknow
          obtain ⟨room, hroom⟩ := Option.ne_none_iff_exists'.mp hknow
          obtain ⟨pkt, room', hacc⟩ := accepted_of_deliver now hf h hs hpos hc hk hroom
            hdone
          exact hdrop.ingress room' hacc.ingress

/-- Datagrams of other packets pass unnoticed. -/
theorem conserves_other (hk : copy.packet ≠ f.packet) :
    Flood.Conserves f.Linked f.knowing origin (f.flood net)
      (f.flood (net.deliver f.sha now copy)) := by
  have hstay : ∀ c ∈ net.inFlight, c.packet = f.packet → c ∈ net.inFlight.erase copy := by
    intro c hc hck
    exact (mem_erase_or hc copy).resolve_right fun heq => hk (heq ▸ hck)
  rcases handleDatagram_cases f.sha (net.relays copy.destination) copy.source now
    copy.datagram with ⟨pkt, room, hacc⟩ | hdrop
  · obtain ⟨hacceptors, -, hfly⟩ := MediaNetwork.deliver_accepts hacc f.packet
    rw [if_neg hk, List.append_nil] at hacceptors
    refine conserves_drop hacceptors ?_ ?_
    · intro c hmem hck
      rw [hfly] at hmem
      rcases List.mem_append.mp hmem with hmem | hmem
      · exact List.mem_of_mem_erase hmem
      · obtain ⟨fp, -, rfl⟩ := List.mem_map.mp hmem
        exact absurd hck hk
    · intro c hc hck
      exact Or.inl (hfly ▸ List.mem_append_left _ (hstay c hc hck))
  · obtain ⟨hacceptors, -, hfly⟩ := MediaNetwork.deliver_drops hdrop f.packet
    refine conserves_drop hacceptors ?_ ?_
    · intro c hmem _
      rw [hfly] at hmem
      exact List.mem_of_mem_erase hmem
    · intro c hc hck
      exact Or.inl (hfly ▸ hstay c hc hck)

/-- What holds between the events of such a run. -/
structure Spreading (f : Flight ι) (direct : List (ι × ParticipantId)) (origin : ι) (load : ι → ℕ)
    (net : MediaNetwork ι) : Prop where
  tracked : f.Tracked direct net
  served : f.Served load net
  covering : Flood.Covering f.Linked f.knowing origin (f.flood net)

omit [DecidableEq ι] in
theorem Served.mono {load load' : ι → ℕ} (h : f.Served load net) (hle : ∀ i, load' i ≤ load i) :
    f.Served load' net := ⟨h.recorded, fun i => (h.budget i).mono (hle i)⟩

theorem spreading_step (hf : f.Proper) {event : MediaEvent ι} {load : ι → ℕ}
    (h : f.Spreading direct origin (fun i => load i + if event.deliversTo i then 1 else 0) net)
    (hle : f.start ≤ now) (hnow : now < f.start + Deduplicator.ttl) (hspares : f.Spares event) :
    f.Spreading direct origin load (net.step f.sha now event) := by
  have hstay : f.Spreading direct origin load net :=
    ⟨h.tracked, h.served.mono fun i => Nat.le_add_right _ _, h.covering⟩
  have htracked := (tracked_step hf h.tracked hle hnow event).1
  cases event with
  | send relay room sender wire =>
      rw [MediaNetwork.step] at htracked ⊢
      split at htracked
      · exact hstay
      · split at htracked
        · rename_i pkt _ hsender
          simp only [hsender, if_true]
          have hfly := (tracked_send h.tracked relay room sender pkt).2
          refine ⟨htracked, ⟨hstay.served.recorded, hstay.served.budget⟩, ?_⟩
          refine Flood.covering_step h.covering (conserves_drop rfl ?_ ?_)
          · intro c hc hk
            obtain ⟨c', hc', hk', heq⟩ := hfly ⟨c, hc, hk, rfl⟩
            obtain ⟨hsrc, hdst⟩ := Prod.mk.inj heq
            have hdata := (htracked.carried c hc hk).trans
              (h.tracked.carried c' hc' hk').symm
            have hsame : c' = c := by
              cases c
              cases c'
              simp only [Copy.mk.injEq] at *
              exact ⟨hk'.trans hk.symm, hsrc, hdst, hdata.symm⟩
            exact hsame ▸ hc'
          · intro c hc _
            exact Or.inl (List.mem_append_left _ hc)
        · rename_i hsender
          simp only [hsender, Bool.false_eq_true, if_false]
          exact hstay
  | deliver copy =>
      rw [MediaNetwork.step] at htracked ⊢
      split at htracked
      · rename_i hc
        rw [if_pos hc]
        have hs : f.Served (fun i => load i + if copy.destination = i then 1 else 0) net := by
          refine h.served.mono fun i => ?_
          simp only [MediaEvent.deliversTo, decide_eq_true_eq]
          exact Nat.le_refl _
        refine ⟨htracked, served_deliver h.tracked hs hspares hf hc, ?_⟩
        apply Flood.covering_step h.covering
        by_cases hk : copy.packet = f.packet
        · exact conserves_copy hf h.tracked hs (by simp) h.covering hnow hc hk
        · exact conserves_other hk
      · rename_i hc
        rw [if_neg hc]
        exact hstay
  | lose copy =>
      refine ⟨htracked, ⟨hstay.served.recorded, hstay.served.budget⟩, ?_⟩
      refine Flood.covering_step h.covering (conserves_drop rfl ?_ ?_)
      · intro c hc _
        exact List.mem_of_mem_erase hc
      · intro c hc hck
        exact Or.inl ((mem_erase_or hc copy).resolve_right fun heq => hspares (heq ▸ hck))

theorem spreading_run (hf : f.Proper) {events : List (ℕ × MediaEvent ι)}
    (h : f.Spreading direct origin (load events) net) (hin : Within f.start events)
    (hspares : ∀ e ∈ events, f.Spares e.2) :
    f.Spreading direct origin (load []) (net.run f.sha events) := by
  induction events generalizing net with
  | nil => exact h
  | cons e events ih =>
      obtain ⟨hle, hnow⟩ := hin e List.mem_cons_self
      refine ih (spreading_step hf ?_ hle hnow (hspares e List.mem_cons_self))
        (fun e' he => hin e' (List.mem_cons_of_mem _ he))
        (fun e' he => hspares e' (List.mem_cons_of_mem _ he))
      exact ⟨h.tracked, h.served.mono fun i => (load_cons e events i).ge, h.covering⟩

/-! ## The sent packet -/

omit [DecidableEq ι] in
theorem spreading_started {setup : ι → FederationManager ι} (hnum : net.Numbered)
    (hsetup : net.HasSetup setup) (sha : Hash) (room : RoomName) (sender : ParticipantId)
    (pkt : MediaPacket) (start : ℕ) (hglobal : (setup origin).isGlobalRoom sha room = true)
    {load : ι → ℕ} (hunseen : ∀ i, (net.relays i).dedup.Unseen
      (ofSend sha setup origin room pkt net.sent start).key)
    (hbudget : ∀ i, (net.relays i).Budget (load i)) :
    (ofSend sha setup origin room pkt net.sent start).Spreading
      (directTargets setup origin room sender pkt) origin load
      (net.send sha origin room sender pkt) := by
  have hflood := flood_started hnum hsetup sha origin room sender pkt start
  refine ⟨tracked_started hnum hsetup sha origin room sender pkt start,
    ⟨fun i => Or.inl (hunseen i), hbudget⟩, ?_, ?_⟩
  · intro a b hab
    exact Or.inl (hflood.inFlight a b hab).1
  · intro a b ha hlink _
    have ho : a = origin := ha.resolve_right fun hacc =>
      Set.notMem_empty _ (hflood.accepted.subset hacc)
    rw [ho] at hlink ⊢
    right
    refine ⟨⟨net.sent, origin, b, (setup origin).globalRoomHash sha room ++ pkt.toBytes⟩, ?_,
      rfl, rfl⟩
    refine List.mem_append_right _ (List.mem_map.mpr ⟨(b, _), ?_, rfl⟩)
    rw [(hsetup origin).egress sha room pkt, egress, if_pos hglobal]
    exact List.mem_map.mpr ⟨b, hlink, rfl⟩

end Flight

/-- The conditions of a run under which a packet of this number spreads: within
the filter's lifetime of two seconds, without a loss of the packet and without
another datagram of its key, on relays that do not know the key and are given no
more datagrams than their rooms have left. -/
structure Unhindered {ι : Type} [DecidableEq ι] (f : Flight ι) (net : MediaNetwork ι)
    (later : List (ℕ × MediaEvent ι)) : Prop where
  within : Flight.Within f.start later
  spares : ∀ e ∈ later, f.Spares e.2
  unseen : ∀ i, (net.relays i).dedup.Unseen f.key
  budget : ∀ i, (net.relays i).Budget (Flight.load later i)

variable {ι : Type} [DecidableEq ι]

/-- The packet of a global room, once no copy is left: on every other relay each
participant whom the packet's tag leads to has it exactly once if the relay can be
reached, and nobody else has it; the room of the sender has it too. -/
theorem media_reaches_everyone (sha : Hash) (setup : ι → FederationManager ι) (origin : ι)
    (room : RoomName) (sender : ParticipantId) (wire : Buf) (pkt : MediaPacket)
    (hwire : MediaPacket.fromBytes wire = some pkt)
    (hmember : ∃ p ∈ (setup origin).roomMgr.localSenders room, p.id = sender)
    (hglobal : (setup origin).isGlobalRoom sha room = true)
    (net : MediaNetwork ι) (hnum : net.Numbered) (hsetup : net.HasSetup setup) (start : ℕ)
    (later : List (ℕ × MediaEvent ι))
    (hrun : Unhindered (Flight.ofSend sha setup origin room pkt net.sent start) net later)
    (hquiet : ∀ c ∈ ((net.step sha start (.send origin room sender wire)).run sha later).inFlight,
      c.packet ≠ net.sent) :
    let f := Flight.ofSend sha setup origin room pkt net.sent start
    let received :=
      ((net.step sha start (.send origin room sender wire)).run sha later).recipients net.sent
    (∀ i, i ≠ origin → ∀ id, (i, id) ∈ received ↔
        Flood.Reached f.Linked f.knowing origin i ∧ (i, id) ∈ f.members i) ∧
      (∀ i, i ≠ origin → ∀ id, received.count (i, id) ≤ 1) ∧
      ∀ p ∈ forwardTargets (setup origin).roomMgr room sender pkt, (origin, p.id) ∈ received := by
  intro f received
  have hproper := Flight.proper_ofSend sha setup origin room hwire net.sent start
  have hstart := Flight.spreading_started hnum hsetup sha room sender pkt start hglobal
    hrun.unseen hrun.budget
  have hsend := MediaNetwork.step_send hsetup sha start hwire hmember
  have hend : received =
      ((net.send sha origin room sender pkt).run sha later).recipients net.sent := by
    simp only [received, hsend]
  rw [hsend] at hquiet
  have hspread := Flight.spreading_run hproper hstart hrun.within hrun.spares
  obtain ⟨-, hsteps⟩ := Flight.tracked_run hproper hstart.tracked hrun.within
  have hbounded := Flood.bounded_run (Flood.bounded_started
    (Flight.flood_started hnum hsetup sha origin room sender pkt start)) hsteps
  have hempty : (f.flood ((net.send sha origin room sender pkt).run sha later)).inFlight = ∅ := by
    ext ab
    refine ⟨?_, fun hab => absurd hab (Set.notMem_empty _)⟩
    rintro ⟨c, hc, hk, -⟩
    exact absurd hk (hquiet c hc)
  -- the relays that have accepted the packet are those that can be reached
  have hacc : ∀ i, i ≠ origin →
      (i ∈ ((net.send sha origin room sender pkt).run sha later).acceptors net.sent ↔
        Flood.Reached f.Linked f.knowing origin i) := by
    intro i hi
    constructor
    · exact hbounded.accepted i
    · intro hreach
      exact (Flood.reached_has hspread.covering hempty hreach).resolve_left hi
  have hlog : received = directTargets setup origin room sender pkt ++
      (((net.send sha origin room sender pkt).run sha later).acceptors net.sent).flatMap
        f.members := hend.trans hspread.tracked.log
  have honce : ((((net.send sha origin room sender pkt).run sha later).acceptors
      net.sent).flatMap f.members).Nodup := by
    refine List.nodup_flatMap.mpr ⟨fun i _ => Flight.nodup_members i, ?_⟩
    refine hspread.tracked.nodup.imp ?_
    rintro i j hne ⟨k, id⟩ hk hk'
    exact hne ((Flight.mem_members hk).1.symm.trans (Flight.mem_members hk').1)
  refine ⟨?_, ?_, ?_⟩
  · intro i hi id
    rw [hlog, List.mem_append, List.mem_flatMap]
    constructor
    · rintro (hmem | ⟨j, hj, hmem⟩)
      · exact absurd (Flight.mem_directTargets hmem).1 hi
      · obtain rfl := (Flight.mem_members hmem).1
        exact ⟨(hacc i hi).mp hj, hmem⟩
    · rintro ⟨hreach, hmem⟩
      exact Or.inr ⟨i, (hacc i hi).mpr hreach, hmem⟩
  · intro i hi id
    have hdirect : (directTargets setup origin room sender pkt).count (i, id) = 0 :=
      List.count_eq_zero.mpr fun hmem => hi (Flight.mem_directTargets hmem).1
    rw [hlog, List.count_append, hdirect, Nat.zero_add]
    exact List.nodup_iff_count_le_one.mp honce _
  · intro p hp
    rw [hlog]
    exact List.mem_append_left _ (List.mem_map.mpr ⟨p, hp, rfl⟩)

/-! ## Along a chain -/
namespace Chain

/-- Three relays in a row, the one in the middle linked to the two at the ends. -/
def relay (i : Fin 3) : FederationManager (Fin 3) :=
  { Triangle.relay i with
    peerLinks := ((List.finRange 3).filter fun j : Fin 3 => i.val + 1 = j.val ∨ j.val + 1 = i.val).map
      fun j => (j, ⟨"", [], fun _ => none, 0⟩)
    links_nodup := by
      rw [List.map_map]
      exact (List.nodup_finRange 3).filter _ |>.map fun _ _ heq => heq }

/-- The packet crosses the chain; the end of the chain has nobody to send it to. -/
def crossing : List (ℕ × MediaEvent (Fin 3)) := Triangle.around.take 2

def sent (sender : Fin 3) : Flight (Fin 3) :=
  Flight.ofSend Triangle.sha relay sender Triangle.conf Triangle.pkt 0 0

theorem unhindered : Unhindered (sent 0) (MediaNetwork.initial relay) crossing := by
  have htwo : ∀ e ∈ crossing,
      e = (0, .deliver ⟨0, 0, 1, roomHash Triangle.sha Triangle.conf ++ Triangle.wire⟩) ∨
      e = (0, .deliver ⟨0, 1, 2, roomHash Triangle.sha Triangle.conf ++ Triangle.wire⟩) :=
    fun e he => by simpa [crossing, Triangle.around] using he
  have hfew : ∀ i, Flight.load crossing i ≤ 1 := by decide
  refine ⟨?_, ?_, fun _ => rfl, fun i => ?_⟩
  · intro e he
    rcases htwo e he with rfl | rfl <;> exact ⟨Nat.le_refl _, by decide⟩
  · intro e he
    rcases htwo e he with rfl | rfl <;> exact Or.inl rfl
  · exact (FederationManager.budget_unused (fun _ => rfl)
      (show 1 ≤ federationRateLimitPps.toNat by decide)).mono (hfew i)

end Chain

theorem media_reaches_everyone_chain :
    let f := Chain.sent 0
    let received := (((MediaNetwork.initial Chain.relay).step Triangle.sha 0
      (.send 0 Triangle.conf 1 Triangle.wire)).run Triangle.sha Chain.crossing).recipients 0
    (∀ i, i ≠ 0 → ∀ id, (i, id) ∈ received ↔
        Flood.Reached f.Linked f.knowing 0 i ∧ (i, id) ∈ f.members i) ∧
      (∀ i, i ≠ 0 → ∀ id, received.count (i, id) ≤ 1) ∧
      ∀ p ∈ forwardTargets (Chain.relay 0).roomMgr Triangle.conf 1 Triangle.pkt,
        (0, p.id) ∈ received :=
  media_reaches_everyone Triangle.sha Chain.relay 0 Triangle.conf 1 Triangle.wire Triangle.pkt
    (by decide) (by decide) (by decide) (MediaNetwork.initial Chain.relay)
    (MediaNetwork.idle_initial _).numbered (MediaNetwork.idle_initial _).setup 0 Chain.crossing
    Chain.unhindered (by decide +kernel)

end Wzp.Relay
