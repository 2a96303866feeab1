import Mathlib.Data.Fintype.Pigeonhole
import Mathlib.Data.List.Chain
import Mathlib.Data.List.Nodup
import Mathlib.Data.List.Range
import Mathlib.Data.Set.Insert

/-!
# Flooding with one acceptance per node

A node that accepts a copy forwards it along all its links but the one it came
by, and accepts at most one copy. The origin sends the first copies without
accepting one itself. A copy can come back to it only along a cycle.
-/
namespace Flood

variable {ι : Type*}

/-- Copies in flight as pairs of source and destination, and the nodes that
have accepted one. -/
structure State (ι : Type*) where
  inFlight : Set (ι × ι)
  accepted : Set ι

/-- Copies may be dropped at any time; `knows` are the nodes that can accept. -/
inductive Step (L : ι → ι → Prop) (knows : Set ι) : State ι → State ι → Prop where
  | drop {s t : State ι} (hacc : t.accepted = s.accepted) (hfly : t.inFlight ⊆ s.inFlight) :
      Step L knows s t
  | accept {s t : State ι} (src dst : ι) (hcopy : (src, dst) ∈ s.inFlight) (hknows : dst ∈ knows)
      (hnew : dst ∉ s.accepted) (hacc : t.accepted = insert dst s.accepted)
      (hfly : ∀ a b, (a, b) ∈ t.inFlight → (a, b) ∈ s.inFlight ∨ a = dst ∧ L dst b ∧ b ≠ src) :
      Step L knows s t

/-- Only copies of the origin itself. -/
structure Started (L : ι → ι → Prop) (origin : ι) (s : State ι) : Prop where
  accepted : s.accepted = ∅
  inFlight : ∀ a b, (a, b) ∈ s.inFlight → a = origin ∧ L origin b

/-- A closed chain of links through distinct nodes that can accept. A link and
its reverse alone do not make one. -/
def Cycle (L : ι → ι → Prop) (knows : Set ι) (origin : ι) : Prop :=
  ∃ l : List ι, l.length ≠ 1 ∧ (origin :: l).Nodup ∧ (∀ v ∈ l, v ∈ knows) ∧
    List.IsChain L (origin :: (l ++ [origin]))

/-- The way a copy has come: `pre ++ [a]` from the origin to the sender `a`. -/
structure Trail (L : ι → ι → Prop) (origin : ι) (accepted : Set ι) (pre : List ι) (a b : ι) :
    Prop where
  head : (pre ++ [a]).head? = some origin
  nodup : (pre ++ [a]).Nodup
  chain : List.IsChain L (pre ++ [a] ++ [b])
  back : pre.getLast? ≠ some b
  accepted : ∀ v ∈ pre ++ [a], v ≠ origin → v ∈ accepted

variable {L : ι → ι → Prop} {knows : Set ι} {origin : ι}

/-- Until the origin accepts, every copy has a trail. -/
structure Traced (L : ι → ι → Prop) (knows : Set ι) (origin : ι) (s : State ι) : Prop where
  silent : origin ∉ s.accepted
  able : s.accepted ⊆ knows
  trails : ∀ a b, (a, b) ∈ s.inFlight → ∃ pre, Trail L origin s.accepted pre a b

theorem Trail.mono {acc acc' : Set ι} {pre : List ι} {a b : ι} (h : Trail L origin acc pre a b)
    (hsub : acc ⊆ acc') : Trail L origin acc' pre a b :=
  { h with accepted := fun v hv hne => hsub (h.accepted v hv hne) }

theorem traced_started {s : State ι} (h : Started L origin s) : Traced L knows origin s := by
  refine ⟨?_, ?_, ?_⟩
  · rw [h.accepted]
    exact Set.notMem_empty _
  · rw [h.accepted]
    exact Set.empty_subset _
  · intro a b hab
    obtain ⟨rfl, hlink⟩ := h.inFlight a b hab
    refine ⟨[], rfl, List.nodup_singleton _, ?_, fun hc => (nomatch hc), ?_⟩
    · exact List.isChain_pair.mpr hlink
    · intro v hv hne
      exact absurd (List.mem_singleton.mp hv) hne

/-- A copy that reaches the origin has closed a cycle. -/
theorem cycle_of_trail {acc : Set ι} (hknows : acc ⊆ knows) {pre : List ι} {a : ι}
    (h : Trail L origin acc pre a origin) : Cycle L knows origin := by
  obtain ⟨l, hl⟩ : ∃ l, pre ++ [a] = origin :: l := by
    cases hp : pre ++ [a] with
    | nil => exact absurd hp (by simp)
    | cons x l =>
        have hhead := h.head
        rw [hp, List.head?_cons] at hhead
        exact ⟨l, by rw [Option.some.inj hhead]⟩
  have hnodup := h.nodup
  have hchain := h.chain
  rw [hl] at hnodup hchain
  refine ⟨l, ?_, hnodup, ?_, hchain⟩
  · -- one relay in between would have sent the copy straight back
    intro hone
    obtain ⟨x, rfl⟩ := List.length_eq_one_iff.mp hone
    have hsplit : pre ++ [a] = [origin] ++ [x] := hl
    have hpre := (List.append_inj' hsplit rfl).1
    exact h.back (by rw [hpre]; rfl)
  · intro v hv
    apply hknows
    apply h.accepted v
    · rw [hl]
      exact List.mem_cons_of_mem _ hv
    · rintro rfl
      exact (List.nodup_cons.mp hnodup).1 hv

theorem trail_extend {acc : Set ι} {pre : List ι} {a b c : ι} (h : Trail L origin acc pre a b)
    (hb : b ∉ acc) (hne : b ≠ origin) (hlink : L b c) (hback : c ≠ a) :
    Trail L origin (insert b acc) (pre ++ [a]) b c := by
  have hfresh : b ∉ pre ++ [a] := fun hmem => hb (h.accepted b hmem hne)
  refine ⟨?_, ?_, ?_, ?_, ?_⟩
  · rw [List.head?_append, h.head]
    rfl
  · rw [List.nodup_append]
    refine ⟨h.nodup, List.nodup_singleton b, ?_⟩
    intro x hx y hy hxy
    exact hfresh (List.mem_singleton.mp hy ▸ hxy ▸ hx)
  · apply List.isChain_append.mpr
    refine ⟨h.chain, List.isChain_singleton c, ?_⟩
    intro x hx y hy
    simp only [List.getLast?_concat, Option.mem_some_iff] at hx
    simp only [List.head?_cons, Option.mem_some_iff] at hy
    rw [← hx, ← hy]
    exact hlink
  · rw [List.getLast?_concat]
    exact fun heq => hback (Option.some.inj heq).symm
  · intro v hv hvo
    rcases List.mem_append.mp hv with hv | hv
    · exact Set.mem_insert_of_mem _ (h.accepted v hv hvo)
    · rw [List.mem_singleton.mp hv]
      exact Set.mem_insert _ _

/-- A step keeps the trails, or the origin accepts and there is a cycle. -/
theorem traced_step {s t : State ι} (h : Traced L knows origin s) (hstep : Step L knows s t) :
    Traced L knows origin t ∨ Cycle L knows origin := by
  cases hstep with
  | drop hacc hfly =>
      left
      refine ⟨hacc ▸ h.silent, hacc ▸ h.able, ?_⟩
      intro a b hab
      rw [hacc]
      exact h.trails a b (hfly hab)
  | accept src dst hcopy hknows hnew hacc hfly =>
      obtain ⟨pre, htrail⟩ := h.trails src dst hcopy
      by_cases hd : dst = origin
      · right
        subst hd
        exact cycle_of_trail h.able htrail
      · left
        refine ⟨?_, ?_, ?_⟩
        · rw [hacc]
          exact fun hmem => (Set.mem_insert_iff.mp hmem).elim (fun he => hd he.symm) h.silent
        · rw [hacc]
          exact Set.insert_subset hknows h.able
        · intro a b hab
          rw [hacc]
          rcases hfly a b hab with hold | ⟨rfl, hlink, hback⟩
          · obtain ⟨pre', htrail'⟩ := h.trails a b hold
            exact ⟨pre', htrail'.mono (Set.subset_insert _ _)⟩
          · exact ⟨_, trail_extend htrail hnew hd hlink hback⟩

/-- Without a cycle through the origin, no run brings a copy back to it. -/
theorem traced_run (hcycle : ¬ Cycle L knows origin) {s t : State ι} (hs : Started L origin s)
    (hrun : Relation.ReflTransGen (Step L knows) s t) : Traced L knows origin t := by
  induction hrun with
  | refl => exact traced_started hs
  | tail _ hstep ih => exact (traced_step ih hstep).resolve_right hcycle

/-- Nothing in flight, nothing accepted any more. -/
theorem quiet_run {s t : State ι} (hs : s.inFlight = ∅)
    (hrun : Relation.ReflTransGen (Step L knows) s t) :
    t.inFlight = ∅ ∧ t.accepted = s.accepted := by
  induction hrun with
  | refl => exact ⟨hs, rfl⟩
  | tail _ hstep ih =>
      obtain ⟨hnone, hsame⟩ := ih
      cases hstep with
      | drop hacc hfly => exact ⟨Set.subset_eq_empty hfly hnone, hacc.trans hsame⟩
      | accept src dst hcopy =>
          rw [hnone] at hcopy
          exact absurd hcopy (Set.notMem_empty _)

/-! ## Floods that lose nothing -/

/-- Nodes a copy gets to: along links from the origin, through nodes that can
accept. -/
inductive Reached (L : ι → ι → Prop) (knows : Set ι) (origin : ι) : ι → Prop where
  | first {b : ι} (hlink : L origin b) (hknows : b ∈ knows) : Reached L knows origin b
  | next {a b : ι} (hprev : Reached L knows origin a) (hlink : L a b) (hknows : b ∈ knows) :
      Reached L knows origin b

/-- The origin has the packet from the start, the others by accepting it. -/
def Has (origin : ι) (s : State ι) (a : ι) : Prop := a = origin ∨ a ∈ s.accepted

/-- What has the packet sent it on along its links, except to nodes that have it
or cannot accept it. -/
structure Covering (L : ι → ι → Prop) (knows : Set ι) (origin : ι) (s : State ι) : Prop where
  carried : ∀ a b, (a, b) ∈ s.inFlight → Has origin s a
  covered : ∀ a b, Has origin s a → L a b → b ∈ knows → Has origin s b ∨ (a, b) ∈ s.inFlight

/-- A step in which copies only disappear where they are of no use, and a node
that accepts sends the packet on. -/
structure Conserves (L : ι → ι → Prop) (knows : Set ι) (origin : ι) (s t : State ι) : Prop where
  kept : s.accepted ⊆ t.accepted
  arrives : ∀ a b, (a, b) ∈ s.inFlight → (a, b) ∈ t.inFlight ∨ b ∈ t.accepted ∨ b ∉ knows
  fresh : ∀ a b, (a, b) ∈ t.inFlight → (a, b) ∈ s.inFlight ∨ Has origin t a
  forwards : ∀ a ∈ t.accepted, a ∉ s.accepted →
    ∃ src, Has origin s src ∧ ∀ b, L a b → b ≠ src → (a, b) ∈ t.inFlight

theorem Has.mono {s t : State ι} (hsub : s.accepted ⊆ t.accepted) {a : ι} (h : Has origin s a) :
    Has origin t a := h.imp_right fun hacc => hsub hacc

theorem covering_step {s t : State ι} (h : Covering L knows origin s)
    (hstep : Conserves L knows origin s t) : Covering L knows origin t := by
  refine ⟨?_, ?_⟩
  · intro a b hab
    rcases hstep.fresh a b hab with hold | hnew
    · exact (h.carried a b hold).mono hstep.kept
    · exact hnew
  · intro a b ha hlink hknows
    by_cases hold : Has origin s a
    · rcases h.covered a b hold hlink hknows with hb | hfly
      · exact Or.inl (hb.mono hstep.kept)
      · rcases hstep.arrives a b hfly with hfly | hb | hnone
        · exact Or.inr hfly
        · exact Or.inl (Or.inr hb)
        · exact absurd hknows hnone
    · -- `a` has just accepted
      have hacc : a ∈ t.accepted := ha.resolve_left fun ho => hold (Or.inl ho)
      obtain ⟨src, hsrc, hsent⟩ := hstep.forwards a hacc fun hs => hold (Or.inr hs)
      by_cases hb : b = src
      · rw [hb]
        exact Or.inl (hsrc.mono hstep.kept)
      · exact Or.inr (hsent b hlink hb)

/-- Once no copy is left, everything that can be reached has the packet. -/
theorem reached_has {s : State ι} (h : Covering L knows origin s) (hquiet : s.inFlight = ∅)
    {b : ι} (hb : Reached L knows origin b) : Has origin s b := by
  have hnone : ∀ a b, (a, b) ∉ s.inFlight := by
    rw [hquiet]
    exact fun a b => Set.notMem_empty _
  induction hb with
  | first hlink hknows => exact (h.covered _ _ (Or.inl rfl) hlink hknows).resolve_right (hnone _ _)
  | next _ hlink hknows ih => exact (h.covered _ _ ih hlink hknows).resolve_right (hnone _ _)

/-- Nothing else is ever sent the packet. -/
structure Bounded (L : ι → ι → Prop) (knows : Set ι) (origin : ι) (s : State ι) : Prop where
  accepted : ∀ a ∈ s.accepted, Reached L knows origin a
  links : ∀ a b, (a, b) ∈ s.inFlight → L a b ∧ (a = origin ∨ Reached L knows origin a)

theorem bounded_started {s : State ι} (h : Started L origin s) : Bounded L knows origin s := by
  refine ⟨?_, ?_⟩
  · rw [h.accepted]
    exact fun a ha => absurd ha (Set.notMem_empty _)
  · intro a b hab
    obtain ⟨rfl, hlink⟩ := h.inFlight a b hab
    exact ⟨hlink, Or.inl rfl⟩

theorem bounded_step {s t : State ι} (h : Bounded L knows origin s) (hstep : Step L knows s t) :
    Bounded L knows origin t := by
  cases hstep with
  | drop hacc hfly => exact ⟨hacc ▸ h.accepted, fun a b hab => h.links a b (hfly hab)⟩
  | accept src dst hcopy hknows hnew hacc hfly =>
      obtain ⟨hlink, hsrc⟩ := h.links src dst hcopy
      have hdst : Reached L knows origin dst := by
        rcases hsrc with rfl | hsrc
        · exact Reached.first hlink hknows
        · exact Reached.next hsrc hlink hknows
      refine ⟨?_, ?_⟩
      · rw [hacc]
        intro a ha
        rcases Set.mem_insert_iff.mp ha with rfl | ha
        · exact hdst
        · exact h.accepted a ha
      · intro a b hab
        rcases hfly a b hab with hold | ⟨rfl, hab, -⟩
        · exact h.links a b hold
        · exact ⟨hab, Or.inr hdst⟩

theorem bounded_run {s t : State ι} (h : Bounded L knows origin s)
    (hrun : Relation.ReflTransGen (Step L knows) s t) : Bounded L knows origin t := by
  induction hrun with
  | refl => exact h
  | tail _ hstep ih => exact bounded_step ih hstep

/-! ## Following a cycle -/

/-- A copy sent from `a` to `b` can go on along `rest` without turning back. -/
inductive Route (L : ι → ι → Prop) : ι → ι → List ι → Prop where
  | last {a b : ι} : Route L a b []
  | next {a b c : ι} {rest : List ι} (hlink : L b c) (hback : c ≠ a) (hrest : Route L b c rest) :
      Route L a b (c :: rest)

theorem route_of_nodup {a b : ι} {rest : List ι} (hchain : List.IsChain L (b :: rest))
    (hnodup : (a :: b :: rest).Nodup) : Route L a b rest := by
  induction rest generalizing a b with
  | nil => exact Route.last
  | cons c rest ih =>
      obtain ⟨hlink, hchain⟩ := List.isChain_cons_cons.mp hchain
      obtain ⟨ha, hnodup⟩ := List.nodup_cons.mp hnodup
      refine Route.next hlink ?_ (ih hchain hnodup)
      rintro rfl
      exact ha (List.mem_cons_of_mem _ List.mem_cons_self)

/-- A cycle is a route from the origin back to it through distinct nodes. -/
theorem Cycle.route (h : Cycle L knows origin) :
    ∃ b rest, L origin b ∧ Route L origin b rest ∧ (b :: rest).Nodup ∧
      (b :: rest).getLast? = some origin ∧ ∀ v ∈ b :: rest, v = origin ∨ v ∈ knows := by
  obtain ⟨l, hone, hnodup, hknows, hchain⟩ := h
  have hrotate : (l ++ [origin]).Nodup := List.nodup_append_comm.mp hnodup
  cases l with
  | nil =>
      refine ⟨origin, [], List.isChain_pair.mp hchain, Route.last, hrotate, rfl, ?_⟩
      intro v hv
      exact Or.inl (List.mem_singleton.mp hv)
  | cons b l =>
      obtain ⟨hlink, hchain⟩ := List.isChain_cons_cons.mp hchain
      refine ⟨b, l ++ [origin], hlink, ?_, hrotate, ?_, ?_⟩
      · cases l with
        | nil => exact absurd rfl hone
        | cons c l =>
            obtain ⟨hbc, hchain⟩ := List.isChain_cons_cons.mp hchain
            refine Route.next hbc ?_ (route_of_nodup hchain hrotate)
            rintro rfl
            exact (List.nodup_cons.mp hnodup).1 (List.mem_cons_of_mem _ List.mem_cons_self)
      · rw [← List.cons_append]
        exact List.getLast?_concat
      · intro v hv
        rcases List.mem_append.mp (show v ∈ (b :: l) ++ [origin] from hv) with hv | hv
        · exact Or.inr (hknows v hv)
        · exact Or.inl (List.mem_singleton.mp hv)

/-! ## Endless walks in finite graphs -/

/-- The first return of a walk that never turns straight back closes a cycle. -/
theorem cycle_of_return {w : ℕ → ι} (hlink : ∀ n, L (w n) (w (n + 1)))
    (honward : ∀ n, w (n + 2) ≠ w n) {d n : ℕ} (hd : 0 < d) (hreturn : w (n + d) = w n)
    (hfirst : ∀ e, 0 < e → e < d → ∀ m, w (m + e) ≠ w m) : Cycle L Set.univ (w n) := by
  obtain ⟨k, rfl⟩ : ∃ k, d = k + 1 := ⟨d - 1, by omega⟩
  have hround : w n :: ((List.range k).map (fun j => w (n + (j + 1))) ++ [w n]) =
      (List.range (k + 2)).map fun j => w (n + j) := by
    rw [List.range_succ, List.map_append, List.range_succ_eq_map, List.map_cons, List.map_map,
      List.map_singleton, hreturn]
    rfl
  refine ⟨(List.range k).map fun j => w (n + (j + 1)), ?_, ?_, fun v _ => Set.mem_univ v, ?_⟩
  · rw [List.length_map, List.length_range]
    rintro rfl
    exact honward n hreturn
  · have hopen : w n :: (List.range k).map (fun j => w (n + (j + 1))) =
        (List.range (k + 1)).map fun j => w (n + j) := by
      rw [List.range_succ_eq_map, List.map_cons, List.map_map]
      rfl
    rw [hopen]
    refine List.Nodup.map_on ?_ List.nodup_range
    -- an earlier return is excluded
    have hlt : ∀ a b, a < b → b < k + 1 → w (n + a) ≠ w (n + b) := by
      intro a b hab hb heq
      apply hfirst (b - a) (by omega) (by omega) (n + a)
      rw [heq]
      congr 1
      omega
    intro a ha b hb heq
    rcases Nat.lt_trichotomy a b with hab | hab | hab
    · exact absurd heq (hlt a b hab (List.mem_range.mp hb))
    · exact hab
    · exact absurd heq.symm (hlt b a hab (List.mem_range.mp ha))
  · rw [hround, List.isChain_map, List.isChain_range_succ]
    intro m _
    exact hlink (n + m)

/-- In a finite graph such a walk meets a cycle. -/
theorem cycle_of_walk [Finite ι] {w : ℕ → ι} (hlink : ∀ n, L (w n) (w (n + 1)))
    (honward : ∀ n, w (n + 2) ≠ w n) : ∃ n, Cycle L Set.univ (w n) := by
  classical
  have hreturns : ∃ d, 0 < d ∧ ∃ n, w (n + d) = w n := by
    obtain ⟨i, j, hne, heq⟩ := Finite.exists_ne_map_eq_of_infinite w
    rcases Nat.lt_or_gt_of_ne hne with hlt | hlt
    · refine ⟨j - i, by omega, i, ?_⟩
      rw [Nat.add_sub_cancel' hlt.le, heq]
    · refine ⟨i - j, by omega, j, ?_⟩
      rw [Nat.add_sub_cancel' hlt.le, heq]
  obtain ⟨hpos, n, hreturn⟩ := Nat.find_spec hreturns
  refine ⟨n, cycle_of_return hlink honward hpos hreturn ?_⟩
  intro e he hlt m heq
  exact Nat.find_min hreturns hlt ⟨he, m, heq⟩

end Flood
