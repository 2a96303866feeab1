import Wzp.Relay.KeyframeCache

/-!
# The latest keyframe of a stream

What is cached after the packets of one stream is compared with the latest keyframe that came
complete and in order, and with what a receiver on the lowest layer is forwarded.
-/
namespace Wzp.Relay.Sfu
open Bytes Proto KeyframeBuffer

/-- A video packet that reaches receivers on layer 0. -/
def Forwarded (pkt : MediaPacket) : Prop :=
  pkt.header.mediaType = .video ∧ (videoRouteReason pkt 0).isSome

instance (pkt : MediaPacket) : Decidable (Forwarded pkt) := inferInstanceAs (Decidable (_ ∧ _))

/-- A packet that stores what is gathered. -/
def EndsKeyframe (pkt : MediaPacket) : Prop :=
  pkt.header.isKeyframe = true ∧ pkt.header.isFrameEnd = true

instance (pkt : MediaPacket) : Decidable (EndsKeyframe pkt) := inferInstanceAs (Decidable (_ ∧ _))

/-- The buffer and the cached packets of a stream after one more packet on it. -/
def store (s : Option KeyframeBuffer × Option (List MediaPacket)) (pkt : MediaPacket) :
    Option KeyframeBuffer × Option (List MediaPacket) :=
  (next s.1 pkt, if EndsKeyframe pkt then some (push s.1 pkt).packets else s.2)

/-- The packets that are cached of a stream. -/
def cached (stream : List MediaPacket) : Option (List MediaPacket) :=
  (stream.foldl store (none, none)).2

/-- The last packet of a keyframe comes after the others came in order, and they fit. -/
structure Keyframe.EndsAt (f : Keyframe) (before : List MediaPacket) (pkt : MediaPacket) : Prop where
  last : f.last = pkt
  inOrder : f.front.Sublist before
  fits : payloadBytes f.packets ≤ keyframeCacheMaxBytes

/-- No keyframe has come complete since this one has. -/
def Latest (frames : Set Keyframe) (stream : List MediaPacket) (f : Keyframe) : Prop :=
  f ∈ frames ∧ ∃ before after, stream = before ++ f.last :: after ∧ f.EndsAt before f.last ∧
    ∀ mid pkt later, after = mid ++ pkt :: later →
      ∀ g ∈ frames, ¬ g.EndsAt (before ++ f.last :: mid) pkt

/-- All that is cached is forwarded too, and the latest keyframe is cached, if it is. -/
structure StreamAgrees (frames : Set Keyframe) (stream : List MediaPacket) : Prop where
  forwarded : ∀ packets ∈ cached stream, ∀ pkt ∈ packets, Forwarded pkt
  latest : ∀ f, Latest frames stream f → (∀ pkt ∈ f.packets, Forwarded pkt) →
    cached stream = some f.packets

/-- Nothing is gathered that the packet would be added to. -/
def StartsAfresh (buffer : Option KeyframeBuffer) (pkt : MediaPacket) : Prop :=
  ∀ b, buffer = some b → b.totalBytes + pkt.payload.length > keyframeCacheMaxBytes ∨ b.packets = []

/-- The packet and what it is added to are forwarded; a keyframe that is complete with it has
come in one piece; and if none is, no earlier one is lost. -/
structure StoresWhole (frames : Set Keyframe) (stream : List MediaPacket) (pkt : MediaPacket) :
    Prop where
  forwarded : Forwarded pkt
  added : StartsAfresh (gathered stream) pkt ∨
    ∀ b, gathered stream = some b → ∀ p ∈ b.packets, Forwarded p
  contiguous : ∀ f ∈ frames, f.EndsAt stream pkt → (∀ p ∈ f.packets, Forwarded p) →
    ∃ before, stream ++ [pkt] = before ++ f.packets ∧ StartsAfresh (gathered before) f.first
  replaces : (∃ f ∈ frames, f.EndsAt stream pkt) ∨
    ∀ f, Latest frames stream f → ∃ p ∈ f.packets, ¬ Forwarded p

variable {frames : Set Keyframe} {stream before : List MediaPacket} {pkt first : MediaPacket}
  {f : Keyframe}

/-! ## One more packet -/

theorem foldl_store (stream : List MediaPacket) :
    stream.foldl store (none, none) = (gathered stream, cached stream) := by
  refine Prod.ext ?_ rfl
  induction stream using List.reverseRecOn with
  | nil => rfl
  | append_singleton stream pkt ih =>
      rw [List.foldl_concat, gathered_concat, store, ih]

theorem cached_concat (stream : List MediaPacket) (pkt : MediaPacket) :
    cached (stream ++ [pkt]) =
      if EndsKeyframe pkt then some (push (gathered stream) pkt).packets else cached stream := by
  rw [cached, List.foldl_concat, foldl_store, store]

theorem Keyframe.endsKeyframe (f : Keyframe) : EndsKeyframe f.last :=
  ⟨(f.keyframe f.last (List.mem_append_right _ (List.mem_singleton_self _))).1, f.frameEnd.1⟩

/-- A packet of a longer stream is its last one, or one of those before. -/
theorem concat_eq_append_cons {α : Type} {stream before after : List α} {a b : α}
    (h : stream ++ [b] = before ++ a :: after) :
    (stream = before ∧ b = a ∧ after = []) ∨
      ∃ rest, after = rest ++ [b] ∧ stream = before ++ a :: rest := by
  induction after using List.reverseRecOn with
  | nil =>
      obtain ⟨hbefore, hlast⟩ := List.append_inj' h rfl
      exact Or.inl ⟨hbefore, List.singleton_inj.mp hlast, rfl⟩
  | append_singleton rest c _ =>
      rw [← List.cons_append, ← List.append_assoc] at h
      obtain ⟨hstream, hlast⟩ := List.append_inj' h rfl
      exact Or.inr ⟨rest, congrArg (rest ++ ·) hlast.symm, hstream⟩

/-- A keyframe is the latest, if it is complete with this packet, or was before and none is now. -/
theorem latest_concat : Latest frames (stream ++ [pkt]) f ↔
    (f ∈ frames ∧ f.EndsAt stream pkt) ∨
      (∀ g ∈ frames, ¬ g.EndsAt stream pkt) ∧ Latest frames stream f := by
  constructor
  · rintro ⟨hf, before, after, hstream, hends, hnone⟩
    rcases concat_eq_append_cons hstream with ⟨rfl, rfl, -⟩ | ⟨rest, rfl, rfl⟩
    · exact Or.inl ⟨hf, hends⟩
    · refine Or.inr ⟨hnone rest pkt [] rfl, hf, before, rest, rfl, hends, ?_⟩
      rintro mid q later rfl
      exact hnone mid q (later ++ [pkt]) (List.append_assoc _ _ _)
  · rintro (⟨hf, hends⟩ | ⟨hnow, hf, before, after, rfl, hends, hnone⟩)
    · obtain rfl := hends.last
      exact ⟨hf, stream, [], rfl, hends, fun mid p later h => by simp at h⟩
    · refine ⟨hf, before, after ++ [pkt], List.append_assoc _ _ _, hends, fun mid p later hafter => ?_⟩
      rcases concat_eq_append_cons hafter with ⟨rfl, rfl, -⟩ | ⟨rest, -, rfl⟩
      · exact hnow
      · exact hnone mid p rest rfl

/-- What is stored is forwarded, if the packet is and all that it is added to. -/
theorem forwarded_push {buffer : Option KeyframeBuffer} :
    (∀ p ∈ (push buffer pkt).packets, Forwarded p) ↔ Forwarded pkt ∧
      (StartsAfresh buffer pkt ∨ ∀ b, buffer = some b → ∀ p ∈ b.packets, Forwarded p) := by
  cases buffer with
  | none =>
      rw [push_none, gathering, List.forall_mem_singleton]
      exact (and_iff_left (Or.inl fun b hb => absurd hb.symm (Option.some_ne_none b))).symm
  | some b =>
      have hafresh : StartsAfresh (some b) pkt ↔
          b.totalBytes + pkt.payload.length > keyframeCacheMaxBytes ∨ b.packets = [] :=
        ⟨fun h => h b rfl, fun h b' hb => Option.some.inj hb ▸ h⟩
      by_cases hroom : b.totalBytes + pkt.payload.length > keyframeCacheMaxBytes
      · rw [push_overflow hroom, gathering, List.forall_mem_singleton]
        exact (and_iff_left (Or.inl (hafresh.mpr (Or.inl hroom)))).symm
      · rw [push_some hroom, List.forall_mem_append, List.forall_mem_singleton, and_comm]
        refine and_congr_right fun _ => ⟨fun h => Or.inr fun b' hb => Option.some.inj hb ▸ h, ?_⟩
        rintro (h | h)
        · rw [(hafresh.mp h).resolve_left hroom]
          exact List.forall_mem_nil _
        · exact h b rfl

/-! ## A keyframe in one piece -/

theorem push_packets_of_afresh {buffer : Option KeyframeBuffer} :
    (push buffer pkt).packets = [pkt] ↔ StartsAfresh buffer pkt := by
  cases buffer with
  | none =>
      rw [push_none]
      exact iff_of_true rfl fun b hb => absurd hb.symm (Option.some_ne_none b)
  | some b =>
      by_cases hroom : b.totalBytes + pkt.payload.length > keyframeCacheMaxBytes
      · rw [push_overflow hroom]
        exact iff_of_true rfl fun b' hb => Option.some.inj hb ▸ Or.inl hroom
      · rw [push_some hroom]
        constructor
        · rintro h b' hb
          obtain rfl := Option.some.inj hb
          exact Or.inr ((List.append_left_inj [pkt]).mp h)
        · intro h
          exact (List.append_left_inj [pkt]).mpr ((h b rfl).resolve_left hroom)

/-- Packets of a keyframe that come one after another are stored with the next one. -/
theorem push_fragments {front : List MediaPacket} {last : MediaPacket}
    (hafresh : StartsAfresh (gathered before) (front.headD last))
    (hfragments : ∀ p ∈ front, p.header.isKeyframe = true ∧ p.header.isFrameEnd = false)
    (hbytes : payloadBytes (front ++ [last]) ≤ keyframeCacheMaxBytes) :
    (push (gathered (before ++ front)) last).packets = front ++ [last] := by
  induction front using List.reverseRecOn generalizing last with
  | nil =>
      rw [List.append_nil]
      exact push_packets_of_afresh.mpr hafresh
  | append_singleton front p ih =>
      have hp := hfragments p (List.mem_append_right _ (List.mem_singleton_self p))
      have hfewer : payloadBytes (front ++ [p]) ≤ keyframeCacheMaxBytes := by
        rw [payloadBytes_append] at hbytes
        omega
      have hfirst : (front ++ [p]).headD last = front.headD p := by
        cases front with
        | nil => rfl
        | cons first rest => rfl
      have hpackets := ih (hfirst ▸ hafresh)
        (fun q hq => hfragments q (List.mem_append_left _ hq)) hfewer
      have hgathered : gathered (before ++ (front ++ [p])) =
          some (push (gathered (before ++ front)) p) := by
        rw [← List.append_assoc, gathered_concat, next, if_pos hp.1]
        exact congrArg some (if_neg (Bool.eq_false_iff.mp hp.2))
      have hroom : (push (gathered (before ++ front)) p).totalBytes + last.payload.length ≤
          keyframeCacheMaxBytes := by
        rw [(gathered_holds _ _ hgathered).bytes, hpackets]
        rw [payloadBytes_append] at hbytes
        exact hbytes
      rw [hgathered, push_some (Nat.not_lt.mpr hroom)]
      exact congrArg (· ++ [last]) hpackets

/-- What is stored is the keyframe exactly if its packets have just come one after another, and
the first of them was added to nothing. -/
theorem push_packets_iff (hfits : payloadBytes f.packets ≤ keyframeCacheMaxBytes) :
    (push (gathered stream) pkt).packets = f.packets ↔
      ∃ before, stream ++ [pkt] = before ++ f.packets ∧ StartsAfresh (gathered before) f.first := by
  constructor
  · intro h
    obtain ⟨rest, hrest⟩ := f.packets_eq
    obtain ⟨before, hstream, hsingle, -⟩ :=
      (Holds.push (gathered_holds stream) pkt).packets _ _ (h.trans hrest)
    exact ⟨before, hstream.trans (by rw [hrest]), push_packets_of_afresh.mp hsingle⟩
  · rintro ⟨before, hstream, hafresh⟩
    obtain ⟨rfl, rfl⟩ := Keyframe.stream_eq hstream
    refine push_fragments hafresh (fun p hp => ?_) hfits
    exact ⟨(f.keyframe p (List.mem_append_left _ hp)).1, f.frameEnd.2 p hp⟩

/-! ## What is cached of a stream -/

theorem cached_subset {packets : List MediaPacket} (h : cached stream = some packets) :
    ∀ p ∈ packets, p ∈ stream := by
  induction stream using List.reverseRecOn with
  | nil => exact absurd h.symm (Option.some_ne_none packets)
  | append_singleton stream pkt ih =>
      rw [cached_concat] at h
      split at h
      · obtain rfl := Option.some.inj h
        cases hpackets : (push (gathered stream) pkt).packets with
        | nil => exact List.forall_mem_nil _
        | cons first rest =>
            obtain ⟨before, hstream, -⟩ :=
              (Holds.push (gathered_holds stream) pkt).packets _ _ hpackets
            rw [hstream]
            exact fun p hp => List.mem_append_right _ hp
      · exact fun p hp => List.mem_append_left _ (ih h p hp)

theorem streamAgrees_nil (frames : Set Keyframe) : StreamAgrees frames [] where
  forwarded packets hpackets := absurd hpackets.symm (Option.some_ne_none packets)
  latest := by
    rintro f ⟨-, before, after, hstream, -⟩
    exact absurd hstream.symm (List.append_ne_nil_of_right_ne_nil _ (List.cons_ne_nil _ _))

/-- A stream goes on to agree exactly if every packet that stores a keyframe stores it whole. -/
theorem streamAgrees_concat (h : StreamAgrees frames stream) :
    StreamAgrees frames (stream ++ [pkt]) ↔
      (EndsKeyframe pkt → StoresWhole frames stream pkt) := by
  by_cases hend : EndsKeyframe pkt
  · have hcached : cached (stream ++ [pkt]) = some (push (gathered stream) pkt).packets := by
      rw [cached_concat, if_pos hend]
    constructor
    · intro hagrees _
      have hpush := forwarded_push.mp (hagrees.forwarded _ hcached)
      refine ⟨hpush.1, hpush.2, fun f hf hends hforwarded => ?_, ?_⟩
      · have hlatest := hagrees.latest f (latest_concat.mpr (Or.inl ⟨hf, hends⟩)) hforwarded
        exact (push_packets_iff hends.fits).mp (Option.some.inj (hcached.symm.trans hlatest))
      · by_contra hlost
        obtain ⟨hnone, hlost⟩ := not_or.mp hlost
        push Not at hnone hlost
        obtain ⟨f, hf, hforwarded⟩ := hlost
        have hlatest := hagrees.latest f (latest_concat.mpr (Or.inr ⟨hnone, hf⟩)) hforwarded
        obtain ⟨before, -, -, hends, -⟩ := hf.2
        obtain ⟨started, hstream, -⟩ := (push_packets_iff hends.fits).mp
          (Option.some.inj (hcached.symm.trans hlatest))
        obtain ⟨rfl, rfl⟩ := Keyframe.stream_eq hstream
        exact hnone f hf.1 ⟨rfl, List.sublist_append_right _ _, hends.fits⟩
    · intro hwhole
      obtain ⟨hforwarded, hadded, hcontiguous, hreplaces⟩ := hwhole hend
      constructor
      · intro packets hpackets
        obtain rfl := Option.some.inj (hcached.symm.trans hpackets)
        exact forwarded_push.mpr ⟨hforwarded, hadded⟩
      · intro f hf hall
        rw [hcached]
        rcases latest_concat.mp hf with ⟨hf, hends⟩ | ⟨hnone, hf⟩
        · exact congrArg some ((push_packets_iff hends.fits).mpr (hcontiguous f hf hends hall))
        · rcases hreplaces with ⟨g, hg, hends⟩ | hlost
          · exact absurd hends (hnone g hg)
          · obtain ⟨p, hp, hnot⟩ := hlost f hf
            exact absurd (hall p hp) hnot
  · have hcached : cached (stream ++ [pkt]) = cached stream := by
      rw [cached_concat, if_neg hend]
    refine iff_of_true ⟨hcached ▸ h.forwarded, fun f hf hall => ?_⟩ fun hends => absurd hends hend
    rw [hcached]
    rcases latest_concat.mp hf with ⟨-, hends⟩ | ⟨-, hf⟩
    · exact absurd (hends.last ▸ f.endsKeyframe) hend
    · exact h.latest f hf hall

end Wzp.Relay.Sfu
