import Wzp.Proto.JitterWindow

/-!
# Order in the jitter buffer

The map is sorted as numbers are, playout goes by serial order, and the two fall
apart where the numbers come round and where they jump.
-/
namespace Wzp.Proto
open Runs Serial

namespace JitterBuffer

/-- Nothing that waits lies behind playout, and no more waits than there is room
for. -/
structure Ordered (jb : JitterBuffer) : Prop where
  ahead : ∀ k ∈ jb.waiting, AtOrAfter jb.nextPlayoutSeq k
  bounded : jb.depth ≤ jb.maxDepth

/-- How far playout is taken along by the drop. -/
def passedBy (jb : JitterBuffer) (seq : UInt32) : ℕ :=
  if jb.dropAdvances seq then (jb.smallestWith seq - jb.startWith seq).toNat + 1 else 0

/-- A drop that takes playout along takes the number that comes first from where
playout stands, and none that stays is out of reach after it. -/
structure KeepsOrder (jb : JitterBuffer) (seq : UInt32) : Prop where
  dropsFirst : jb.dropAdvances seq = true → ∀ k ∈ seq :: jb.waiting,
    jb.smallestWith seq - jb.startWith seq ≤ k - jb.startWith seq
  inReach : ∀ k ∈ seq :: jb.waiting, ¬ (jb.isFull = true ∧ k = jb.smallestWith seq) →
    (k - jb.startWith seq).toNat < jb.passedBy seq + 2 ^ 31

/-- The number of a push that goes among the others leaves them in order. -/
def OrderlyEvent (jb : JitterBuffer) : JitterEvent → Prop
  | .push _ packet => jb.joins packet.header.seq = true → KeepsOrder jb packet.header.seq
  | .pushWithArrival _ packet _ =>
      jb.joins packet.header.seq = true → KeepsOrder jb packet.header.seq
  | _ => True

-- the lists are gone through, not the numbers
instance (jb : JitterBuffer) : Decidable (Ordered jb) :=
  have : Decidable (∀ k ∈ jb.waiting, AtOrAfter jb.nextPlayoutSeq k) := List.decidableBAll _ _
  decidable_of_iff ((∀ k ∈ jb.waiting, AtOrAfter jb.nextPlayoutSeq k) ∧ jb.depth ≤ jb.maxDepth)
    ⟨fun h => ⟨h.1, h.2⟩, fun h => ⟨h.1, h.2⟩⟩

instance (jb : JitterBuffer) (seq : UInt32) : Decidable (KeepsOrder jb seq) :=
  have : Decidable (∀ k ∈ seq :: jb.waiting,
      jb.smallestWith seq - jb.startWith seq ≤ k - jb.startWith seq) := List.decidableBAll _ _
  have : Decidable (∀ k ∈ seq :: jb.waiting, ¬ (jb.isFull = true ∧ k = jb.smallestWith seq) →
      (k - jb.startWith seq).toNat < jb.passedBy seq + 2 ^ 31) := List.decidableBAll _ _
  decidable_of_iff ((jb.dropAdvances seq = true → ∀ k ∈ seq :: jb.waiting,
        jb.smallestWith seq - jb.startWith seq ≤ k - jb.startWith seq) ∧
      ∀ k ∈ seq :: jb.waiting, ¬ (jb.isFull = true ∧ k = jb.smallestWith seq) →
        (k - jb.startWith seq).toNat < jb.passedBy seq + 2 ^ 31)
    ⟨fun h => ⟨h.1, h.2⟩, fun h => ⟨h.1, h.2⟩⟩

instance (jb : JitterBuffer) : (e : JitterEvent) → Decidable (OrderlyEvent jb e)
  | .push _ packet =>
      inferInstanceAs (Decidable (jb.joins packet.header.seq = true → KeepsOrder jb packet.header.seq))
  | .pushWithArrival _ packet _ =>
      inferInstanceAs (Decidable (jb.joins packet.header.seq = true → KeepsOrder jb packet.header.seq))
  | .pop => isTrue trivial
  | .reset => isTrue trivial
  | .resetStats => isTrue trivial
  | .recordUnderrun => isTrue trivial
  | .recordDecode => isTrue trivial
  | .setTargetDepth _ => isTrue trivial

/-! ## One push -/

variable {jb jb' : JitterBuffer} {seq k o start : UInt32} {packet : MediaPacket}

theorem seqBefore_iff {a b : UInt32} :
    seqBefore a b = true ↔ 0 < (b - a).toNat ∧ (b - a).toNat < 0x8000 := by
  simp only [seqBefore, Bool.and_eq_true, decide_eq_true_eq, UInt32.lt_iff_toNat_lt]
  rfl

/-- At or after the number behind the dropped one, in distances from where
playout stood. -/
theorem atOrAfter_dropped (hnear : seqBefore start (o + 1) = true) (hne : k ≠ o) :
    AtOrAfter (o + 1) k ↔ o - start ≤ k - start ∧
      (k - start).toNat < (o - start).toNat + 1 + 2 ^ 31 := by
  have hne' : k.toNat ≠ o.toNat := fun heq => hne (UInt32.toNat_inj.mp heq)
  have hnear' := seqBefore_iff.mp hnear
  rw [UInt32.le_iff_toNat_le, AtOrAfter]
  rw [toNat_sub, toNat_add_one] at *
  rw [toNat_sub k start, toNat_sub o start]
  have hk := k.toNat_lt
  have ho := o.toNat_lt
  have hstart := start.toNat_lt
  omega

theorem mem_waiting_of_perm {entries : List (UInt32 × MediaPacket)}
    (h : entries.Perm ((seq, packet) :: jb.buffer)) :
    k ∈ entries.map Prod.fst ↔ k ∈ seq :: jb.waiting := by
  have hmap := h.map Prod.fst
  rw [List.map_cons] at hmap
  exact hmap.mem_iff

/-- What a push that drops a packet leaves waiting. -/
theorem mem_waiting_displaced {p : MediaPacket} (hsorted : jb.buffer.Pairwise fun a b => a.1 < b.1)
    (hnew : ∀ e ∈ jb.buffer, e.1 ≠ seq)
    (hdrop : insertSorted seq packet jb.buffer = (o, p) :: jb'.buffer) :
    k ∈ jb'.waiting ↔ k ∈ seq :: jb.waiting ∧ k ≠ o := by
  have hkeys := insertSorted_sorted packet hsorted hnew
  have hmem : k ∈ (insertSorted seq packet jb.buffer).map Prod.fst ↔ k ∈ seq :: jb.waiting :=
    mem_waiting_of_perm (insertSorted_perm packet hnew)
  rw [hdrop] at hkeys hmem
  rw [List.map_cons] at hmem
  obtain ⟨hhead, -⟩ := List.pairwise_cons.mp hkeys
  rw [← hmem, List.mem_cons]
  constructor
  · intro hk
    obtain ⟨e, he, rfl⟩ := List.mem_map.mp hk
    exact ⟨Or.inr hk, (UInt32.ne_of_lt (hhead e he)).symm⟩
  · rintro ⟨hk | hk, hne⟩
    · exact absurd hk hne
    · exact hk

theorem keepsOrder_room (hroom : jb.isFull = false) :
    KeepsOrder jb seq ↔ ∀ k ∈ seq :: jb.waiting, AtOrAfter (jb.startWith seq) k := by
  have hstays : jb.dropAdvances seq = false := by
    rw [dropAdvances, hroom, Bool.false_and]
  have hpassed : jb.passedBy seq = 0 := by
    rw [passedBy, hstays]
    rfl
  constructor
  · intro h k hk
    have hreach := h.inReach k hk (fun hfull => Bool.false_ne_true (hroom.symm.trans hfull.1))
    rw [hpassed, Nat.zero_add] at hreach
    exact hreach
  · intro h
    refine ⟨fun hadv => absurd (hstays.symm.trans hadv) Bool.false_ne_true, fun k hk _ => ?_⟩
    rw [hpassed, Nat.zero_add]
    exact h k hk

theorem keepsOrder_full (hfull : jb.isFull = true) :
    KeepsOrder jb seq ↔ ∀ k ∈ seq :: jb.waiting, k ≠ jb.smallestWith seq →
      AtOrAfter (if jb.dropAdvances seq then jb.smallestWith seq + 1 else jb.startWith seq) k := by
  cases hadv : jb.dropAdvances seq with
  | false =>
      have hpassed : jb.passedBy seq = 0 := by
        rw [passedBy, hadv]
        rfl
      constructor
      · intro h k hk hne
        have hreach := h.inReach k hk (fun hand => hne hand.2)
        rw [hpassed, Nat.zero_add] at hreach
        exact hreach
      · intro h
        refine ⟨fun hadv' => absurd (hadv.symm.trans hadv') Bool.false_ne_true, fun k hk hnot => ?_⟩
        rw [hpassed, Nat.zero_add]
        exact h k hk fun heq => hnot ⟨hfull, heq⟩
  | true =>
      have hpassed : jb.passedBy seq = (jb.smallestWith seq - jb.startWith seq).toNat + 1 := by
        rw [passedBy, hadv]
        rfl
      have hnear : seqBefore (jb.startWith seq) (jb.smallestWith seq + 1) = true := by
        rw [dropAdvances, hfull, Bool.true_and] at hadv
        exact hadv
      rw [if_pos rfl]
      constructor
      · intro h k hk hne
        have hreach := h.inReach k hk (fun hand => hne hand.2)
        rw [hpassed] at hreach
        exact (atOrAfter_dropped hnear hne).mpr ⟨h.dropsFirst hadv k hk, hreach⟩
      · intro h
        refine ⟨fun _ k hk => ?_, fun k hk hnot => ?_⟩
        · by_cases heq : k = jb.smallestWith seq
          · rw [heq]
            exact UInt32.le_refl _
          · exact ((atOrAfter_dropped hnear heq).mp (h k hk heq)).1
        · have hne : k ≠ jb.smallestWith seq := fun heq => hnot ⟨hfull, heq⟩
          rw [hpassed]
          exact ((atOrAfter_dropped hnear hne).mp (h k hk hne)).2

theorem ordered_pushed (h : Formed jb) (hordered : Ordered jb) (hformed : Formed jb')
    (hpushed : Pushed jb packet jb') :
    Ordered jb' ↔ (jb.joins packet.header.seq = true → KeepsOrder jb packet.header.seq) := by
  have hbounded := hformed.bounded
  cases hpushed with
  | first unused buffer next =>
      have hnot : ¬ jb.joins packet.header.seq = true := fun hjoins =>
        Bool.false_ne_true (unused.symm.trans (joins_spec hjoins).1)
      refine ⟨fun _ hjoins => absurd hjoins hnot, fun _ => ⟨fun k hk => ?_, hbounded⟩⟩
      rw [waiting, buffer] at hk
      rw [List.mem_singleton.mp hk, next]
      exact atOrAfter_self _
  | ignored known initialized buffer next =>
      refine ⟨fun _ hjoins => absurd (known.1.symm.trans hjoins) Bool.false_ne_true,
        fun _ => ⟨fun k hk => ?_, hbounded⟩⟩
      rw [waiting, buffer] at hk
      rw [next]
      exact hordered.ahead k hk
  | renewed sender buffer next =>
      have hnot : ¬ jb.joins packet.header.seq = true := by
        intro hjoins
        rw [isNewSender, (joins_spec hjoins).2.2, Bool.and_false, Bool.false_and] at sender
        exact Bool.false_ne_true sender
      refine ⟨fun _ hjoins => absurd hjoins hnot, fun _ => ⟨fun k hk => ?_, hbounded⟩⟩
      rw [waiting, buffer] at hk
      rw [List.mem_singleton.mp hk, next]
      exact atOrAfter_self _
  | joined joins room buffer next =>
      obtain ⟨-, hnew, -⟩ := joins_spec joins
      have hmem : ∀ k, k ∈ jb'.waiting ↔ k ∈ packet.header.seq :: jb.waiting := by
        intro k
        rw [waiting, buffer]
        exact mem_waiting_of_perm (insertSorted_perm packet hnew)
      rw [keepsOrder_room room]
      constructor
      · intro hnext _ k hk
        rw [← next]
        exact hnext.ahead k ((hmem k).mpr hk)
      · intro hkeeps
        refine ⟨fun k hk => ?_, hbounded⟩
        rw [next]
        exact hkeeps joins k ((hmem k).mp hk)
  | displaced joins full buffer next =>
      obtain ⟨-, hnew, -⟩ := joins_spec joins
      obtain ⟨p, hdrop⟩ := buffer
      have hmem := fun k => mem_waiting_displaced (k := k) h.sorted hnew hdrop
      rw [keepsOrder_full full, ← next]
      constructor
      · intro hnext _ k hk hne
        exact hnext.ahead k ((hmem k).mpr ⟨hk, hne⟩)
      · intro hkeeps
        refine ⟨fun k hk => ?_, hbounded⟩
        obtain ⟨hk, hne⟩ := (hmem k).mp hk
        exact hkeeps joins k hk hne

/-! ## One pop -/

theorem ordered_pop (h : Formed jb) (hordered : Ordered jb) : Ordered jb.pop.2 := by
  have hbounded := (formed_popped h).bounded
  cases pop_popped jb with
  | waits waits same =>
      rw [same]
      exact hordered
  | plays packet plays held buffer next =>
      refine ⟨fun k hk => ?_, hbounded⟩
      rw [waiting, buffer] at hk
      obtain ⟨e, he, rfl⟩ := List.mem_map.mp hk
      obtain ⟨hmem, hne⟩ := List.mem_filter.mp he
      rw [next]
      exact (hordered.ahead _ (List.mem_map_of_mem hmem)).next (of_decide_eq_true hne)
  | conceals conceals absent buffer next =>
      refine ⟨fun k hk => ?_, hbounded⟩
      rw [waiting, buffer] at hk
      obtain ⟨e, he, rfl⟩ := List.mem_map.mp hk
      rw [next]
      exact (hordered.ahead _ (List.mem_map_of_mem he)).next (absent e he)

theorem ordered_apply (h : Formed jb) (hordered : Ordered jb) (e : JitterEvent) :
    Ordered (jb.apply e) ↔ OrderlyEvent jb e := by
  have hformed := formed_apply h e
  cases e with
  | push now packet =>
      exact ordered_pushed h hordered hformed (pushTuned_pushed h (tune_tunes now packet)).2
  | pushWithArrival now packet arrivalMs =>
      exact ordered_pushed h hordered hformed
        (pushTuned_pushed h (tuneWithArrival_tunes now arrivalMs packet)).2
  | pop => exact ⟨fun _ => trivial, fun _ => ordered_pop h hordered⟩
  | reset =>
      exact ⟨fun _ => trivial, fun _ => ⟨fun k hk => absurd hk List.not_mem_nil, Nat.zero_le _⟩⟩
  | resetStats => exact ⟨fun _ => trivial, fun _ => ⟨hordered.ahead, hordered.bounded⟩⟩
  | recordUnderrun => exact ⟨fun _ => trivial, fun _ => ⟨hordered.ahead, hordered.bounded⟩⟩
  | recordDecode => exact ⟨fun _ => trivial, fun _ => ⟨hordered.ahead, hordered.bounded⟩⟩
  | setTargetDepth depth => exact ⟨fun _ => trivial, fun _ => ⟨hordered.ahead, hordered.bounded⟩⟩

/-- What waits is in order all the time exactly if every push keeps it so. -/
theorem ordered_throughout_iff {jb : JitterBuffer} (h : Created jb) (es : List JitterEvent) :
    Throughout apply Ordered jb es ↔ EachStep apply OrderlyEvent jb es := by
  have hempty : Ordered jb := by
    cases h with
    | new targetDepth maxDepth minDepth room =>
        exact ⟨fun k hk => absurd hk List.not_mem_nil, Nat.zero_le _⟩
    | newAdaptive minDelay maxDelay range room =>
        exact ⟨fun k hk => absurd hk List.not_mem_nil, Nat.zero_le _⟩
  exact throughout_iff_eachStep (fun _ e hformed _ _ => formed_apply hformed e)
    (fun _ e hformed hordered => ordered_apply hformed hordered e) h.formed hempty

/-- A frame of the stream with this number. -/
def numbered (seq : UInt32) : MediaPacket :=
  ⟨⟨2, 0, .audio, .opus24k, 0, 0, seq, seq * 20, 0⟩, [], none⟩

theorem in_step_ordered : Throughout apply Ordered (.new 3 100 2)
    [.push 0 (numbered 1), .push 0 (numbered 0), .pop, .push 0 (numbered 2), .pop] :=
  (ordered_throughout_iff (.new 3 100 2 (by decide)) _).mpr (by decide)

/-- As the numbers come round, the newest packet is dropped for the oldest. -/
theorem wrapped_stranded : ¬ Throughout apply Ordered (.new 1 2 1)
    [.push 0 (numbered 0xFFFFFFFE), .push 0 (numbered 0xFFFFFFFF), .push 0 (numbered 0)] := by
  decide

end JitterBuffer
end Wzp.Proto
