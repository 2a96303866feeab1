import Wzp.Crypto.Session
import Wzp.Crypto.AntiReplayRefinement
import Mathlib.Data.List.Induction

/-!
# Delivery of sealed packets

One session seals a family of packets; the other opens whatever the network
delivers of it, in any order and any number of times.
-/
namespace Wzp.Crypto
open Bytes Proto
open Primitives (zeroKey)

/-! ## The numbers of one stream -/
namespace AntiReplayWindow

/-- How far a number is past the base of its stream. -/
def offset (b s : UInt32) : ℕ := (s - b).toNat

theorem offset_inj {b s t : UInt32} (h : offset b s = offset b t) : s = t := by
  have hsub : s - b = t - b := UInt32.toNat_inj.mp h
  rw [← UInt32.sub_add_cancel s b, hsub, UInt32.sub_add_cancel]

/-- The window has accepted the numbers of `seen`, read relative to `b`. -/
def Tracks (W : ℕ) (b : UInt32) (w : AntiReplayWindow) (seen : List UInt32) : Prop :=
  ∃ (r : ReplayReference) (c : ℤ), Refines w r ∧ w.windowSize.toNat = W ∧
    c ≡ b.toNat [ZMOD 2 ^ 32] ∧ (r.highest = none ↔ seen = []) ∧
    ∀ e, e ∈ r.accepted ↔ ∃ s ∈ seen, e = c + offset b s

theorem offset_modEq {b s : UInt32} {c : ℤ} (hc : c ≡ b.toNat [ZMOD 2 ^ 32]) :
    c + offset b s ≡ s.toNat [ZMOD 2 ^ 32] := by
  have hadd := hc.add (Serial.toNat_sub_modEq s b)
  rwa [add_sub_cancel] at hadd

theorem tracks_withWindow {size : UInt64} (hpos : 0 < size.toNat) (hlt : size.toNat < 2 ^ 32)
    (b : UInt32) : Tracks size.toNat b (withWindow size) [] := by
  have hmod : size.toNat % 2 ^ 32 = size.toNat := Nat.mod_eq_of_lt hlt
  refine ⟨{}, b.toNat, withWindow_refines (by rwa [hmod]) (by omega), ?_, Int.ModEq.refl _, ?_, ?_⟩
  · rw [withWindow_windowSize, hmod]
  · exact ⟨fun _ => rfl, fun _ => rfl⟩
  · intro e
    constructor
    · intro he
      exact absurd he (Finset.notMem_empty e)
    · rintro ⟨s, hs, _⟩
      exact absurd hs List.not_mem_nil

/-- The first number of a stream is accepted. -/
theorem tracks_first {W : ℕ} {b s : UInt32} {w : AntiReplayWindow} (h : Tracks W b w []) :
    (w.checkAndUpdate s).1 = .ok () ∧ Tracks W b (w.checkAndUpdate s).2 [s] := by
  obtain ⟨r, c, href, hW, hc, hnone, _⟩ := h
  have hh : r.highest = none := hnone.mpr rfl
  have hcheck : r.check w.windowSize.toNat s =
      (some (s.toNat : ℤ), ⟨some (s.toNat : ℤ), {(s.toNat : ℤ)}⟩) := by
    rw [ReplayReference.check, hh]
  obtain ⟨hout, hsize, hnext⟩ := checkAndUpdate_refines href s
  rw [hcheck] at hout hnext
  refine ⟨hout, _, s.toNat - offset b s, hnext, hsize ▸ hW, ?_, by simp, ?_⟩
  · have hoff := (Serial.toNat_sub_modEq s b).symm.sub_left (s.toNat : ℤ)
    rw [sub_sub_cancel] at hoff
    exact hoff.symm
  · intro e
    rw [Finset.mem_singleton]
    constructor
    · intro he
      exact ⟨s, List.mem_singleton_self s, by rw [sub_add_cancel, he]⟩
    · rintro ⟨t, ht, he⟩
      rw [he, List.mem_singleton.mp ht, sub_add_cancel]

/-- On a started stream, the number is read back at its own offset. -/
theorem tracks_nearest {r : ReplayReference} {b s : UInt32} {c h : ℤ} {seen : List UInt32}
    (hc : c ≡ b.toNat [ZMOD 2 ^ 32]) (hacc : ∀ e, e ∈ r.accepted ↔ ∃ s ∈ seen, e = c + offset b s)
    (hh : h ∈ r.accepted) (hs : offset b s < 2 ^ 31) (hspan : ∀ t ∈ seen, offset b t < 2 ^ 31) :
    Serial.nearest (2 ^ 32) h s.toNat = c + offset b s := by
  obtain ⟨t, ht, rfl⟩ := (hacc h).mp hh
  have htop := hspan t ht
  exact Serial.nearest_unique (by decide) (offset_modEq hc) (by omega) (by omega)

/-- A number seen before is refused. -/
theorem tracks_again {W : ℕ} {b s : UInt32} {w : AntiReplayWindow} {seen : List UInt32}
    (h : Tracks W b w seen) (hspan : ∀ t ∈ seen, offset b t < 2 ^ 31) (hold : s ∈ seen) :
    (w.checkAndUpdate s).1 = .error (.replayDetected s) ∧
      Tracks W b (w.checkAndUpdate s).2 (seen ++ [s]) := by
  obtain ⟨r, c, href, hW, hc, hnone, hacc⟩ := h
  cases hh : r.highest with
  | none => exact absurd hold (hnone.mp hh ▸ List.not_mem_nil)
  | some h =>
      obtain ⟨_, _, htop, _⟩ := href.started h hh
      have hnear := tracks_nearest hc hacc htop (hspan s hold) hspan
      have hmem : c + (offset b s : ℤ) ∈ r.accepted := (hacc _).mpr ⟨s, hold, rfl⟩
      have hle := href.bounded.le h hh _ hmem
      have hcheck : r.check w.windowSize.toNat s = (none, r) := by
        simp only [ReplayReference.check, hh, hnear, not_lt.mpr hle, if_false, hmem,
          not_true_eq_false, and_false]
      obtain ⟨hout, hsize, hnext⟩ := checkAndUpdate_refines href s
      rw [hcheck] at hout hnext
      refine ⟨hout, r, c, hnext, hsize ▸ hW, hc, ?_, ?_⟩
      · rw [hh]
        simp
      · intro e
        rw [hacc e]
        constructor
        · rintro ⟨t, ht, he⟩
          exact ⟨t, List.mem_append_left _ ht, he⟩
        · rintro ⟨t, ht, he⟩
          rcases List.mem_append.mp ht with ht | ht
          · exact ⟨t, ht, he⟩
          · exact ⟨s, hold, List.mem_singleton.mp ht ▸ he⟩

/-- A new number less than the window size behind all others is accepted. -/
theorem tracks_new {W : ℕ} {b s : UInt32} {w : AntiReplayWindow} {seen : List UInt32}
    (h : Tracks W b w seen) (hs : offset b s < 2 ^ 31) (hspan : ∀ t ∈ seen, offset b t < 2 ^ 31)
    (hnear : ∀ t ∈ seen, offset b t < offset b s + W) (hnew : s ∉ seen) :
    (w.checkAndUpdate s).1 = .ok () ∧ Tracks W b (w.checkAndUpdate s).2 (seen ++ [s]) := by
  cases seen with
  | nil => exact tracks_first h
  | cons t seen =>
      obtain ⟨r, c, href, hW, hc, hnone, hacc⟩ := h
      obtain ⟨h, hh⟩ : ∃ h, r.highest = some h :=
        Option.ne_none_iff_exists'.mp fun hn => List.cons_ne_nil t seen (hnone.mp hn)
      obtain ⟨_, _, htop, _⟩ := href.started h hh
      have hread := tracks_nearest hc hacc htop hs hspan
      have hfresh : c + (offset b s : ℤ) ∉ r.accepted := by
        intro hmem
        obtain ⟨u, hu, he⟩ := (hacc _).mp hmem
        have hoff : offset b s = offset b u := by omega
        exact hnew (offset_inj hoff ▸ hu)
      have hbehind : h - (c + (offset b s : ℤ)) < w.windowSize.toNat := by
        obtain ⟨u, hu, rfl⟩ := (hacc h).mp htop
        have hlt := hnear u hu
        rw [hW]
        omega
      -- accepted above the highest number or inside the window
      obtain ⟨k, hcheck⟩ : ∃ k, r.check w.windowSize.toNat s =
          (some (c + (offset b s : ℤ)), ⟨some k, insert (c + (offset b s : ℤ)) r.accepted⟩) := by
        simp only [ReplayReference.check, hh, hread]
        by_cases hlt : h < c + (offset b s : ℤ)
        · exact ⟨_, if_pos hlt⟩
        · refine ⟨h, ?_⟩
          rw [if_neg hlt, if_pos ⟨hbehind, hfresh⟩]
      obtain ⟨hout, hsize, hnext⟩ := checkAndUpdate_refines href s
      rw [hcheck] at hout hnext
      refine ⟨hout, _, c, hnext, hsize ▸ hW, hc, by simp, ?_⟩
      intro e
      rw [Finset.mem_insert, hacc e]
      constructor
      · rintro (he | ⟨u, hu, he⟩)
        · exact ⟨s, List.mem_append_right _ (List.mem_singleton_self s), he⟩
        · exact ⟨u, List.mem_append_left _ hu, he⟩
      · rintro ⟨u, hu, he⟩
        rcases List.mem_append.mp hu with hu | hu
        · exact Or.inr ⟨u, hu, he⟩
        · exact Or.inl (List.mem_singleton.mp hu ▸ he)

end AntiReplayWindow

namespace ChaChaSession
open AntiReplayWindow

/-- A packet as it was sealed. -/
structure SealedPacket where
  header : MediaHeader
  headerBytes : Buf
  plaintext : Buf
  ciphertext : Buf
  deriving DecidableEq

namespace SealedPacket

def stream (x : SealedPacket) : UInt8 × MediaType := streamOf x.header
def seq (x : SealedPacket) : UInt32 := x.header.seq

end SealedPacket

/-- Seal a family of packets in order, if every call succeeds. -/
def sealAll (P : Primitives) : ChaChaSession → List (Buf × Buf) → Option (List SealedPacket)
  | _, [] => some []
  | s, (headerBytes, plaintext) :: rest =>
      match parseHeader headerBytes, s.encrypt P headerBytes plaintext [] with
      | some header, (.ok (), s, ciphertext) =>
          (sealAll P s rest).map (⟨header, headerBytes, plaintext, ciphertext⟩ :: ·)
      | _, _ => none

/-- The receiver after a list of deliveries. -/
def receiveAll (P : Primitives) (s : ChaChaSession) (deliveries : List SealedPacket) :
    ChaChaSession :=
  deliveries.foldl (fun s x => (s.decrypt P x.headerBytes x.ciphertext []).2.1) s

/-- Sealed under this key, for the session id of this key. -/
def SealedUnder (P : Primitives) (s : ChaChaSession) (x : SealedPacket) : Prop :=
  parseHeader x.headerBytes = some x.header ∧
    P.aeadSeal s.cipher (s.nonceFor x.header) x.headerBytes x.plaintext = some x.ciphertext

theorem sealAll_sealed {P : Primitives} {s : ChaChaSession} {family : List (Buf × Buf)}
    {sent : List SealedPacket} (h : sealAll P s family = some sent) :
    ∀ x ∈ sent, s.SealedUnder P x := by
  induction family generalizing s sent with
  | nil =>
      obtain rfl := Option.some.inj h
      exact fun _ hx => absurd hx List.not_mem_nil
  | cons packet family ih =>
      obtain ⟨headerBytes, plaintext⟩ := packet
      rcases encrypt_cases P s headerBytes plaintext [] with ⟨header, ct, hp, hs, he⟩ | ⟨e, he⟩
      · simp only [sealAll, hp, he, Option.map_eq_some_iff, List.nil_append] at h
        obtain ⟨tail, htail, rfl⟩ := h
        intro x hx
        rcases List.mem_cons.mp hx with rfl | hx
        · exact ⟨hp, hs⟩
        · exact ih htail x hx
      · cases hp : parseHeader headerBytes with
        | none => simp only [sealAll, hp, reduceCtorEq] at h
        | some header => simp only [sealAll, hp, he, reduceCtorEq] at h

/-- The numbers delivered on one stream. -/
def seqsOn (stream : UInt8 × MediaType) (deliveries : List SealedPacket) : List UInt32 :=
  (deliveries.filter (·.stream = stream)).map SealedPacket.seq

theorem mem_seqsOn {stream : UInt8 × MediaType} {deliveries : List SealedPacket} {s : UInt32} :
    s ∈ seqsOn stream deliveries ↔ ∃ y ∈ deliveries, y.stream = stream ∧ y.seq = s := by
  simp only [seqsOn, List.mem_map, List.mem_filter, decide_eq_true_eq, and_assoc]

theorem seqsOn_snoc (stream : UInt8 × MediaType) (deliveries : List SealedPacket)
    (x : SealedPacket) : seqsOn stream (deliveries ++ [x]) =
      seqsOn stream deliveries ++ if x.stream = stream then [x.seq] else [] := by
  rw [seqsOn, List.filter_append, List.map_append, seqsOn]
  by_cases hx : x.stream = stream
  · simp [hx]
  · simp [hx]

/-- The receiver holds the key, and each window the numbers of its stream. -/
structure Received (P : Primitives) (key : Bytes32) (base : UInt8 × MediaType → UInt32)
    (s : ChaChaSession) (deliveries : List SealedPacket) : Prop where
  cipher : s.cipher = key
  ident : s.sessionId = sessionIdOf P key
  windows : ∀ stream, Tracks (defaultWindowSize stream.2).toNat (base stream)
    ((s.antiReplay stream).getD (defaultWindowForMediaType stream.2)) (seqsOn stream deliveries)

theorem defaultWindowSize_bounds (mediaType : MediaType) :
    0 < (defaultWindowSize mediaType).toNat ∧ (defaultWindowSize mediaType).toNat < 2 ^ 32 := by
  cases mediaType <;> decide

theorem received_new (P : Primitives) (key : Bytes32) (base : UInt8 × MediaType → UInt32) :
    Received P key base (new P key) [] := by
  refine ⟨rfl, rfl, ?_⟩
  intro stream
  obtain ⟨hpos, hlt⟩ := defaultWindowSize_bounds stream.2
  exact tracks_withWindow hpos hlt _

/-- Stream and number identify a packet of the family. -/
theorem identified {sent : List SealedPacket}
    (h : sent.Pairwise fun x y => x.stream = y.stream → x.seq ≠ y.seq) {y z : SealedPacket}
    (hy : y ∈ sent) (hz : z ∈ sent) (hstream : y.stream = z.stream) (hseq : y.seq = z.seq) :
    y = z := by
  induction sent with
  | nil => exact absurd hy List.not_mem_nil
  | cons x sent ih =>
      obtain ⟨hhead, htail⟩ := List.pairwise_cons.mp h
      rcases List.mem_cons.mp hy with rfl | hy'
      · rcases List.mem_cons.mp hz with rfl | hz'
        · rfl
        · exact absurd hseq (hhead z hz' hstream)
      · rcases List.mem_cons.mp hz with rfl | hz'
        · exact absurd hseq.symm (hhead y hy' hstream.symm)
        · exact ih htail hy' hz'

/-- The window of a packet's stream accepts its first copy and no other. -/
theorem received_window {P : Primitives} {key : Bytes32} {base : UInt8 × MediaType → UInt32}
    {s : ChaChaSession} {pre : List SealedPacket} (h : Received P key base s pre)
    {x : SealedPacket} (hspan : ∀ y ∈ pre ++ [x], offset (base y.stream) y.seq < 2 ^ 31)
    (hsame : ∀ y ∈ pre, y.stream = x.stream → y.seq = x.seq → y = x)
    (hnear : x ∉ pre → ∀ y ∈ pre, y.stream = x.stream → offset (base x.stream) y.seq <
      offset (base x.stream) x.seq + (defaultWindowSize x.header.mediaType).toNat) :
    (x ∉ pre → ((s.windowOf x.header).checkAndUpdate x.seq).1 = .ok ()) ∧
    (x ∈ pre → ((s.windowOf x.header).checkAndUpdate x.seq).1 = .error (.replayDetected x.seq)) ∧
    Tracks (defaultWindowSize x.header.mediaType).toNat (base x.stream)
      ((s.windowOf x.header).checkAndUpdate x.seq).2 (seqsOn x.stream pre ++ [x.seq]) := by
  have htracks : Tracks (defaultWindowSize x.header.mediaType).toNat (base x.stream)
      (s.windowOf x.header) (seqsOn x.stream pre) := h.windows x.stream
  have hspanOn : ∀ t ∈ seqsOn x.stream pre, offset (base x.stream) t < 2 ^ 31 := by
    intro t ht
    obtain ⟨y, hy, hstream, rfl⟩ := mem_seqsOn.mp ht
    rw [← hstream]
    exact hspan y (List.mem_append_left _ hy)
  by_cases hmem : x ∈ pre
  · obtain ⟨herr, hnext⟩ := tracks_again htracks hspanOn (mem_seqsOn.mpr ⟨x, hmem, rfl, rfl⟩)
    exact ⟨fun hfresh => absurd hmem hfresh, fun _ => herr, hnext⟩
  · have hnearOn : ∀ t ∈ seqsOn x.stream pre, offset (base x.stream) t <
        offset (base x.stream) x.seq + (defaultWindowSize x.header.mediaType).toNat := by
      intro t ht
      obtain ⟨y, hy, hstream, rfl⟩ := mem_seqsOn.mp ht
      exact hnear hmem y hy hstream
    have hfresh : x.seq ∉ seqsOn x.stream pre := by
      intro ht
      obtain ⟨y, hy, hstream, hseq⟩ := mem_seqsOn.mp ht
      exact hmem (hsame y hy hstream hseq ▸ hy)
    obtain ⟨hok, hnext⟩ := tracks_new htracks
      (hspan x (List.mem_append_right _ (List.mem_singleton_self x))) hspanOn hnearOn hfresh
    exact ⟨fun _ => hok, fun hold => absurd hold hmem, hnext⟩

/-- One delivery: the first copy of a packet yields its plaintext, a later one
an error. -/
theorem received_step {P : Primitives} (haead : P.AeadCorrect) {key : Bytes32}
    {base : UInt8 × MediaType → UInt32} {s : ChaChaSession} {pre : List SealedPacket}
    (h : Received P key base s pre) {x : SealedPacket} (hx : (new P key).SealedUnder P x)
    (hspan : ∀ y ∈ pre ++ [x], offset (base y.stream) y.seq < 2 ^ 31)
    (hsame : ∀ y ∈ pre, y.stream = x.stream → y.seq = x.seq → y = x)
    (hnear : x ∉ pre → ∀ y ∈ pre, y.stream = x.stream → offset (base x.stream) y.seq <
      offset (base x.stream) x.seq + (defaultWindowSize x.header.mediaType).toNat) (out : Buf) :
    (x ∉ pre → (s.decrypt P x.headerBytes x.ciphertext out).1 = .ok () ∧
      (s.decrypt P x.headerBytes x.ciphertext out).2.2 = out ++ x.plaintext) ∧
    (x ∈ pre → (s.decrypt P x.headerBytes x.ciphertext out).1 = .error (.replayDetected x.seq) ∧
      (s.decrypt P x.headerBytes x.ciphertext out).2.2 = out) ∧
    Received P key base (s.decrypt P x.headerBytes x.ciphertext out).2.1 (pre ++ [x]) := by
  obtain ⟨hnew, hagain, hnext⟩ := received_window h hspan hsame hnear
  obtain ⟨hcipher, hid, hwindows⟩ := h
  obtain ⟨hparse, hseal⟩ := hx
  have hopen : P.aeadOpen s.cipher (s.nonceFor x.header) x.headerBytes x.ciphertext =
      some x.plaintext := by
    rw [hcipher, nonceFor, hid]
    exact haead _ _ _ _ _ hseal
  rw [decrypt_authentic hparse hopen]
  simp only [SealedPacket.seq] at hnew hagain
  refine ⟨?_, ?_, ⟨hcipher, hid, ?_⟩⟩
  · intro hfresh
    rw [hnew hfresh]
    exact ⟨rfl, rfl⟩
  · intro hold
    rw [hagain hold]
    exact ⟨rfl, rfl⟩
  · intro stream
    rw [seqsOn_snoc]
    simp only
    by_cases hs : x.stream = stream
    · -- the stream of the packet
      subst hs
      rw [if_pos rfl, SealedPacket.stream, received_antiReplay_self, Option.getD_some]
      exact hnext
    · rw [if_neg hs, List.append_nil, received_antiReplay_other s x.header (Ne.symm hs)]
      exact hwindows stream

/-- Whatever is dropped, duplicated or reordered, as long as no first copy comes
a window or more behind its stream: every packet is delivered exactly once. -/
theorem delivered_exactly_once {P : Primitives} (haead : P.AeadCorrect) (key : Bytes32)
    (family : List (Buf × Buf)) {sent : List SealedPacket}
    (hsent : sealAll P (new P key) family = some sent)
    (hdistinct : sent.Pairwise fun x y => x.stream = y.stream → x.seq ≠ y.seq)
    (base : UInt8 × MediaType → UInt32)
    (hspan : ∀ x ∈ sent, offset (base x.stream) x.seq < 2 ^ 31)
    {deliveries : List SealedPacket} (hmem : ∀ x ∈ deliveries, x ∈ sent)
    (hwindow : ∀ pre x, pre ++ [x] <+: deliveries → x ∉ pre → ∀ y ∈ pre, y.stream = x.stream →
      offset (base x.stream) y.seq <
        offset (base x.stream) x.seq + (defaultWindowSize x.header.mediaType).toNat)
    {pre : List SealedPacket} {x : SealedPacket} (hpre : pre ++ [x] <+: deliveries) (out : Buf) :
    let result := (receiveAll P (new P key) pre).decrypt P x.headerBytes x.ciphertext out
    (x ∉ pre → result.1 = .ok () ∧ result.2.2 = out ++ x.plaintext) ∧
      (x ∈ pre → result.1 = .error (.replayDetected x.seq) ∧ result.2.2 = out) := by
  have hsealed := sealAll_sealed hsent
  have hfrom : ∀ {pre : List SealedPacket} {x : SealedPacket}, pre ++ [x] <+: deliveries →
      ∀ y ∈ pre ++ [x], y ∈ sent := fun hp y hy => hmem y (hp.subset hy)
  -- the receiver's state after any prefix of the deliveries
  have hreceived : ∀ pre, pre <+: deliveries →
      Received P key base (receiveAll P (new P key) pre) pre := by
    intro pre
    induction pre using List.reverseRecOn with
    | nil => exact fun _ => received_new P key base
    | append_singleton pre x ih =>
        intro hp
        have hin := hfrom hp
        have hx := hin x (List.mem_append_right _ (List.mem_singleton_self x))
        rw [receiveAll, List.foldl_append]
        exact (received_step haead (ih ((List.prefix_append _ _).trans hp)) (hsealed x hx)
          (fun y hy => hspan y (hin y hy))
          (fun y hy => identified hdistinct (hin y (List.mem_append_left _ hy)) hx)
          (fun hfresh y hy => hwindow pre x hp hfresh y hy) []).2.2
  have hin := hfrom hpre
  have hx := hin x (List.mem_append_right _ (List.mem_singleton_self x))
  obtain ⟨hfirst, hlater, _⟩ := received_step haead
    (hreceived pre ((List.prefix_append _ _).trans hpre)) (hsealed x hx)
    (fun y hy => hspan y (hin y hy))
    (fun y hy => identified hdistinct (hin y (List.mem_append_left _ hy)) hx)
    (fun hfresh y hy => hwindow pre x hpre hfresh y hy) out
  exact ⟨hfirst, hlater⟩

/-- A header sealed with an empty payload under the sample key. -/
def sampleSealed (header : MediaHeader) : SealedPacket :=
  ⟨header, header.writeTo, [],
    Primitives.tagBytes zeroKey ((new .tagged zeroKey).nonceFor header)⟩

/-- Two audio packets out of order, a video packet with a number used before,
and the first audio packet again. -/
theorem delivered_exactly_once_sample :
    let first := sampleSealed sampleHeader
    let second := sampleSealed { sampleHeader with seq := 1 }
    let video := sampleSealed { sampleHeader with mediaType := .video }
    let result := (receiveAll .tagged (new .tagged zeroKey) [second, first, video]).decrypt
      .tagged first.headerBytes first.ciphertext []
    (first ∉ [second, first, video] → result.1 = .ok () ∧ result.2.2 = [] ++ first.plaintext) ∧
      (first ∈ [second, first, video] →
        result.1 = .error (.replayDetected first.seq) ∧ result.2.2 = []) := by
  intro first second video
  have hsent : sealAll .tagged (new .tagged zeroKey) [(first.headerBytes, []),
      (second.headerBytes, []), (video.headerBytes, [])] = some [first, second, video] := by decide
  have hspan : ∀ x ∈ [first, second, video], offset 0 x.seq < 2 := by decide
  have hwide : ∀ x ∈ [first, second, video], offset 0 x.seq < 2 ^ 31 := by
    intro x hx
    have hlt := hspan x hx
    omega
  have hmem : ∀ x ∈ [second, first, video, first], x ∈ [first, second, video] := by decide
  have hlarge : ∀ mediaType, 2 ≤ (defaultWindowSize mediaType).toNat := by
    intro mediaType
    cases mediaType <;> decide
  exact delivered_exactly_once Primitives.tagged_aeadCorrect zeroKey _ hsent (by decide)
    (fun _ => 0) hwide hmem (by
      intro pre x hpre _ y hy _
      have hlt := hspan y (hmem y (hpre.subset (List.mem_append_left _ hy)))
      have hle := hlarge x.header.mediaType
      omega)
    (List.prefix_refl _) []

end ChaChaSession
end Wzp.Crypto
