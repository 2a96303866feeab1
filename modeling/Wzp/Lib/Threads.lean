import Mathlib.Data.List.Chain
import Mathlib.Data.List.Forall2
import Wzp.Lib.FirstMatch

/-!
# Sorting a stream into threads

An item goes to the first thread whose last item it follows. If it follows none, it starts
a thread of its own.
-/
namespace Threads

/-! ## The first match, or a new element -/
section firstOr
variable {α β : Type*} {R : α → β → Prop} {p : α → Bool} {q : β → Bool} {f : α → α} {g : β → β}
  {new : ℕ → α} {new' : ℕ → β} {l : List α} {m : List β}

def firstOr (p : α → Bool) (f : α → α) (new : ℕ → α) (l : List α) : List α :=
  if l.any p then FirstMatch.update p f l else l ++ [new l.length]

theorem update_eq_modify :
    FirstMatch.update p f l = (l.findIdx? p).elim l fun i => l.modify i f := by
  induction l with
  | nil => rfl
  | cons x l ih =>
      rw [FirstMatch.update, List.findIdx?_cons]
      by_cases hx : p x = true
      · simp [hx]
      · rw [if_neg hx, if_neg hx, ih]
        cases l.findIdx? p <;> rfl

/-- Related lists stay related if their conditions agree. -/
theorem forall₂_update (hpq : ∀ a b, R a b → p a = q b)
    (hfg : ∀ a b, R a b → p a = true → R (f a) (g b)) (h : List.Forall₂ R l m) :
    List.Forall₂ R (FirstMatch.update p f l) (FirstMatch.update q g m) := by
  induction h with
  | nil => exact List.Forall₂.nil
  | cons hab htail ih =>
      rw [FirstMatch.update, FirstMatch.update, ← hpq _ _ hab]
      split
      · next hp => exact List.Forall₂.cons (hfg _ _ hab hp) htail
      · exact List.Forall₂.cons hab ih

theorem any_congr_forall₂ (hpq : ∀ a b, R a b → p a = q b) (h : List.Forall₂ R l m) :
    l.any p = m.any q := by
  induction h with
  | nil => rfl
  | cons hab _ ih => rw [List.any_cons, List.any_cons, hpq _ _ hab, ih]

theorem forall₂_firstOr (hpq : ∀ a b, R a b → p a = q b)
    (hfg : ∀ a b, R a b → p a = true → R (f a) (g b)) (hnew : ∀ n, R (new n) (new' n))
    (h : List.Forall₂ R l m) : List.Forall₂ R (firstOr p f new l) (firstOr q g new' m) := by
  rw [firstOr, firstOr, ← any_congr_forall₂ hpq h, ← h.length_eq]
  split
  · exact forall₂_update hpq hfg h
  · exact List.rel_append h (List.Forall₂.cons (hnew _) List.Forall₂.nil)

/-- The element with one name is changed if it is the only one that matches. -/
theorem update_map [DecidableEq β] {names : List β} {k : β} {h : β → α} (hnodup : names.Nodup)
    (hp : ∀ j ∈ names, (p (h j) = true ↔ j = k)) :
    FirstMatch.update p f (names.map h) =
      names.map fun j => if j = k then f (h j) else h j := by
  induction names with
  | nil => rfl
  | cons n names ih =>
      obtain ⟨hn, hnodup⟩ := List.nodup_cons.mp hnodup
      rw [List.map_cons, FirstMatch.update, List.map_cons]
      by_cases hk : n = k
      · have hrest : names.map (fun j => if j = k then f (h j) else h j) = names.map h := by
          apply List.map_congr_left
          intro j hj
          have hjk : j ≠ k := by
            rintro rfl
            exact hn (hk ▸ hj)
          exact if_neg hjk
        rw [if_pos ((hp n List.mem_cons_self).mpr hk), if_pos hk, hrest]
      · rw [if_neg fun hpn => hk ((hp n List.mem_cons_self).mp hpn), if_neg hk,
          ih hnodup fun j hj => hp j (List.mem_cons_of_mem n hj)]

/-- The place of the first match, as a search gives it. -/
theorem firstOr_eq_modify : firstOr p f new l =
    (l.findIdx? p).elim (l ++ [new l.length]) fun i => l.modify i f := by
  have hany : l.any p = (l.findIdx? p).isSome := List.findIdx?_isSome.symm
  rw [firstOr, update_eq_modify, hany]
  cases l.findIdx? p with
  | none => rfl
  | some i => rfl

end firstOr

/-! ## Threads -/
section threads
variable {α ι : Type*} (follows : α → α → Bool)

/-- Whether `x` follows the last item of a thread. -/
def continues (x : α) (t : List α) : Bool := t.getLast?.any fun last => follows last x

def place (ts : List (List α)) (x : α) : List (List α) :=
  firstOr (continues follows x) (· ++ [x]) (fun _ => [x]) ts

def threads (xs : List α) : List (List α) := xs.foldl (place follows) []

variable {follows} {ts : List (List α)} {xs t : List α} {x y : α}

theorem threads_concat (xs : List α) (x : α) :
    threads follows (xs ++ [x]) = place follows (threads follows xs) x := by
  rw [threads, threads, List.foldl_append, List.foldl_cons, List.foldl_nil]

theorem update_flatten_perm {p : List α → Bool} (h : ts.any p = true) :
    (FirstMatch.update p (· ++ [x]) ts).flatten.Perm (ts.flatten ++ [x]) := by
  induction ts with
  | nil => exact nomatch h
  | cons t ts ih =>
      rw [FirstMatch.update]
      by_cases ht : p t = true
      · rw [if_pos ht, List.flatten_cons, List.flatten_cons, List.append_assoc, List.append_assoc]
        exact (List.perm_append_comm).append_left t
      · rw [List.any_cons, Bool.or_eq_true] at h
        rw [if_neg ht, List.flatten_cons, List.flatten_cons, List.append_assoc]
        exact (ih (h.resolve_left ht)).append_left t

/-- Every item is in exactly one thread. -/
theorem threads_perm (xs : List α) : (threads follows xs).flatten.Perm xs := by
  induction xs using List.reverseRecOn with
  | nil => exact List.Perm.refl _
  | append_singleton xs x ih =>
      rw [threads_concat, place, firstOr]
      split
      · next hany => exact (update_flatten_perm hany).trans (ih.append_right [x])
      · rw [List.flatten_append, List.flatten_singleton]
        exact ih.append_right [x]

theorem mem_place {P : List α → Prop} (hold : ∀ t ∈ ts, P t)
    (hlonger : ∀ t ∈ ts, continues follows x t = true → P (t ++ [x])) (hnew : P [x]) :
    ∀ t ∈ place follows ts x, P t := by
  intro t ht
  rw [place, firstOr] at ht
  split at ht
  · rcases FirstMatch.mem_update ht with hmem | ⟨t', hfind, rfl⟩
    · exact hold t hmem
    · exact hlonger t' (List.mem_of_find?_eq_some hfind) (List.find?_some hfind)
  · rcases List.mem_append.mp ht with hmem | hmem
    · exact hold t hmem
    · rw [List.mem_singleton.mp hmem]
      exact hnew

/-- A property of threads that starting and continuing one keep. -/
theorem threads_induction {P : List α → Prop} (hnew : ∀ x ∈ xs, P [x])
    (hlonger : ∀ t, P t → ∀ x ∈ xs, continues follows x t = true → P (t ++ [x])) :
    ∀ t ∈ threads follows xs, P t := by
  induction xs using List.reverseRecOn with
  | nil => exact fun t ht => absurd ht List.not_mem_nil
  | append_singleton xs x ih =>
      have hx : x ∈ xs ++ [x] := List.mem_append_right xs List.mem_cons_self
      have hbefore := ih (fun y hy => hnew y (List.mem_append_left [x] hy))
        (fun t ht y hy => hlonger t ht y (List.mem_append_left [x] hy))
      rw [threads_concat]
      exact mem_place hbefore (fun t ht => hlonger t (hbefore t ht) x hx) (hnew x hx)

theorem continues_iff : continues follows x t = true ↔
    ∃ last, t.getLast? = some last ∧ follows last x = true := Option.any_eq_true _ _

/-- In a thread every item follows the one before it. -/
theorem threads_chain (h : t ∈ threads follows xs) :
    t.IsChain fun a b => follows a b = true := by
  refine threads_induction (P := fun t => t.IsChain fun a b => follows a b = true)
    (fun x _ => List.isChain_singleton x) (fun t ht x _ hx => ?_) t h
  obtain ⟨last, hlast, hfollows⟩ := continues_iff.mp hx
  refine List.isChain_append.mpr ⟨ht, List.isChain_singleton x, fun a ha b hb => ?_⟩
  obtain rfl := Option.some.inj (hlast.symm.trans ha)
  obtain rfl := Option.some.inj hb
  exact hfollows

/-- The length of the way along a thread. -/
def travelled (distance : α → α → ℕ) : List α → ℕ
  | a :: b :: rest => distance a b + travelled distance (b :: rest)
  | _ => 0

theorem travelled_concat {distance : α → α → ℕ} {last : α} (h : t.getLast? = some last) :
    travelled distance (t ++ [x]) = travelled distance t + distance last x := by
  induction t with
  | nil => cases h
  | cons a t ih =>
      cases t with
      | nil =>
          obtain rfl := Option.some.inj h
          exact Nat.add_comm _ _
      | cons b rest =>
          rw [List.getLast?_cons_cons] at h
          have hrest := ih h
          rw [List.cons_append] at hrest
          rw [List.cons_append, List.cons_append, travelled, hrest, travelled, Nat.add_assoc]

theorem place_length : ts.length ≤ (place follows ts x).length := by
  rw [place, firstOr]
  split
  · rw [FirstMatch.length_update]
  · rw [List.length_append]
    exact Nat.le_add_right _ _

/-- There is one thread exactly if every item follows the one before it. -/
theorem threads_length_le_one_iff :
    (threads follows xs).length ≤ 1 ↔ xs.IsChain fun a b => follows a b = true := by
  constructor
  · intro h
    have hone : threads follows xs = [] ∨ threads follows xs = [xs] := by
      induction xs using List.reverseRecOn with
      | nil => exact Or.inl rfl
      | append_singleton xs x ih =>
          rw [threads_concat] at h ⊢
          right
          rcases ih (place_length.trans h) with hnil | hself
          · have hxs : xs = [] := by
              have hperm : (threads follows xs).flatten.Perm xs := threads_perm xs
              rw [hnil] at hperm
              exact hperm.nil_eq.symm
            rw [hnil, hxs]
            rfl
          · rw [hself] at h ⊢
            rw [place, firstOr] at h ⊢
            split at h
            · next hany =>
                rw [if_pos hany]
                simp only [List.any_cons, List.any_nil, Bool.or_false] at hany
                rw [FirstMatch.update, if_pos hany]
            · exact absurd h (by simp)
    rcases hone with hnil | hself
    · have hperm : (threads follows xs).flatten.Perm xs := threads_perm xs
      rw [hnil] at hperm
      rw [← hperm.nil_eq]
      exact List.isChain_nil
    · exact threads_chain (hself ▸ List.mem_cons_self)
  · intro h
    suffices hone : threads follows xs = if xs = [] then [] else [xs] by
      rw [hone]
      split <;> simp
    induction xs using List.reverseRecOn with
    | nil => rfl
    | append_singleton xs x ih =>
        obtain ⟨hxs, -, hlast⟩ := List.isChain_append.mp h
        rw [threads_concat, ih hxs,
          if_neg (List.append_ne_nil_of_right_ne_nil xs (List.cons_ne_nil x []))]
        by_cases hnil : xs = []
        · rw [if_pos hnil, hnil]
          rfl
        · obtain ⟨last, hgot⟩ := Option.ne_none_iff_exists'.mp
            (mt List.getLast?_eq_none_iff.mp hnil)
          have hcont : continues follows x xs = true :=
            continues_iff.mpr ⟨last, hgot, hlast last hgot x rfl⟩
          rw [if_neg hnil, place, firstOr, List.any_cons, hcont, Bool.true_or, if_pos rfl,
            FirstMatch.update, if_pos hcont]

/-! ## One machine for each thread -/
section machines
variable {σ : Type*} (start : ℕ → α → σ) (push : σ → α → σ) (accepts : σ → α → Bool)

/-- The first machine that accepts an item gets it. If none does, a new one gets it. -/
def serve (ss : List σ) (x : α) : List σ :=
  firstOr (accepts · x) (push · x) (fun id => push (start id x) x) ss

variable {start push accepts} {R : σ → List α → Prop}

/-- What the machines know is a matter of their threads alone. -/
theorem forall₂_serve (haccepts : ∀ s t x, R s t → accepts s x = continues follows x t)
    (hnew : ∀ id x, R (push (start id x) x) [x])
    (hpush : ∀ s t x, R s t → continues follows x t = true → R (push s x) (t ++ [x]))
    (xs : List α) :
    List.Forall₂ R (xs.foldl (serve start push accepts) []) (threads follows xs) := by
  induction xs using List.reverseRecOn with
  | nil => exact List.Forall₂.nil
  | append_singleton xs x ih =>
      rw [threads_concat, List.foldl_append, List.foldl_cons, List.foldl_nil]
      refine forall₂_firstOr (fun s t h => haccepts s t x h) (fun s t h hx => hpush s t x h ?_)
        (fun id => hnew id x) ih
      rw [← haccepts s t x h, hx]

/-- The machines are numbered as they were started. -/
theorem map_serve_id {id : σ → ℕ} (hstart : ∀ n x, id (push (start n x) x) = n)
    (hpush : ∀ s x, id (push s x) = id s) (xs : List α) :
    (xs.foldl (serve start push accepts) []).map id =
      List.range (xs.foldl (serve start push accepts) []).length := by
  induction xs using List.reverseRecOn with
  | nil => rfl
  | append_singleton xs x ih =>
      rw [List.foldl_append, List.foldl_cons, List.foldl_nil, serve, firstOr]
      split
      · rw [FirstMatch.map_update fun s => hpush s x, ih, FirstMatch.length_update]
      · rw [List.map_append, ih, List.length_append, List.length_singleton, List.range_succ,
          List.map_singleton, hstart]

end machines

/-! ## Threads of owners -/
variable [DecidableEq ι] {owner : α → ι}

/-- The owners in the order of their first items. -/
def names (owner : α → ι) (xs : List α) : List ι :=
  xs.foldl (fun ns x => if owner x ∈ ns then ns else ns ++ [owner x]) []

def own (owner : α → ι) (xs : List α) (i : ι) : List α := xs.filter fun x => owner x = i

/-- An item follows the last one of its own owner and of no other. -/
def Separated (follows : α → α → Bool) (owner : α → ι) (xs : List α) : Prop :=
  ∀ before x after, xs = before ++ x :: after →
    ∀ i last, (own owner before i).getLast? = some last → (follows last x = true ↔ owner x = i)

theorem names_concat : names owner (xs ++ [x]) =
    if owner x ∈ names owner xs then names owner xs else names owner xs ++ [owner x] := by
  rw [names, List.foldl_append]
  rfl

theorem names_nodup (xs : List α) : (names owner xs).Nodup := by
  induction xs using List.reverseRecOn with
  | nil => exact List.nodup_nil
  | append_singleton xs x ih =>
      rw [names_concat]
      split
      · exact ih
      · next hx =>
          rw [List.nodup_append]
          refine ⟨ih, List.nodup_singleton _, fun i hi j hj hij => hx ?_⟩
          rw [← List.mem_singleton.mp hj, ← hij]
          exact hi

theorem mem_names {i : ι} : i ∈ names owner xs ↔ ∃ x ∈ xs, owner x = i := by
  induction xs using List.reverseRecOn with
  | nil => simp [names]
  | append_singleton xs x ih =>
      have hstep : i ∈ names owner (xs ++ [x]) ↔ i ∈ names owner xs ∨ owner x = i := by
        rw [names_concat]
        split
        · next hx =>
            refine ⟨Or.inl, fun h => h.elim id fun heq => heq ▸ hx⟩
        · rw [List.mem_append, List.mem_singleton, eq_comm (a := i)]
      rw [hstep, ih]
      simp only [List.mem_append, List.mem_singleton]
      constructor
      · rintro (⟨y, hy, rfl⟩ | rfl)
        · exact ⟨y, Or.inl hy, rfl⟩
        · exact ⟨x, Or.inr rfl, rfl⟩
      · rintro ⟨y, hy | rfl, rfl⟩
        · exact Or.inl ⟨y, hy, rfl⟩
        · exact Or.inr rfl

theorem own_concat (xs : List α) (x : α) (i : ι) :
    own owner (xs ++ [x]) i = if i = owner x then own owner xs i ++ [x] else own owner xs i := by
  rw [own, List.filter_append]
  by_cases hi : i = owner x
  · rw [if_pos hi, List.filter_cons_of_pos (by simp [hi]), List.filter_nil]
    rfl
  · rw [if_neg hi, List.filter_cons_of_neg (by simpa using Ne.symm hi), List.filter_nil,
      List.append_nil]
    rfl

theorem own_ne_nil {i : ι} : own owner xs i ≠ [] ↔ i ∈ names owner xs := by
  rw [mem_names, ne_eq, own, List.filter_eq_nil_iff]
  simp

@[simp] theorem separated_nil : Separated follows owner [] := by
  intro before x after h
  exact absurd h.symm (List.append_ne_nil_of_right_ne_nil before (List.cons_ne_nil x after))

/-- One more item keeps the owners apart if it continues the thread of its owner alone. -/
theorem separated_concat : Separated follows owner (xs ++ [x]) ↔
    Separated follows owner xs ∧
      ∀ i ∈ names owner xs, (continues follows x (own owner xs i) = true ↔ owner x = i) := by
  have hmatch (i : ι) (hi : i ∈ names owner xs) : ∃ last,
      (own owner xs i).getLast? = some last ∧
        continues follows x (own owner xs i) = follows last x := by
    obtain ⟨last, hlast⟩ := Option.ne_none_iff_exists'.mp
      (mt List.getLast?_eq_none_iff.mp (own_ne_nil.mpr hi))
    exact ⟨last, hlast, by rw [continues, hlast, Option.any_some]⟩
  constructor
  · refine fun h => ⟨?_, fun i hi => ?_⟩
    · rintro before y after rfl
      exact h before y (after ++ [x]) (by rw [List.append_assoc, List.cons_append])
    · obtain ⟨last, hlast, hcont⟩ := hmatch i hi
      rw [hcont]
      exact h xs x [] rfl i last hlast
  · rintro ⟨hxs, hx⟩ before y after heq i last hlast
    rcases List.eq_nil_or_concat after with rfl | ⟨after, z, rfl⟩
    · obtain ⟨rfl, hxy⟩ := List.append_inj' heq rfl
      obtain rfl := (List.cons.inj hxy).1
      have hi : i ∈ names owner xs := own_ne_nil.mp fun hnil => by
        rw [hnil] at hlast
        cases hlast
      obtain ⟨last', hlast', hcont⟩ := hmatch i hi
      obtain rfl := Option.some.inj (hlast.symm.trans hlast')
      rw [← hcont]
      exact hx i hi
    · rw [List.concat_eq_append, ← List.cons_append, ← List.append_assoc] at heq
      obtain ⟨rfl, -⟩ := List.append_inj' heq rfl
      exact hxs before y after rfl i last hlast

/-- The threads of separated owners are theirs. -/
theorem threads_eq_own (h : Separated follows owner xs) :
    threads follows xs = (names owner xs).map (own owner xs) := by
  induction xs using List.reverseRecOn with
  | nil => rfl
  | append_singleton xs x ih =>
      obtain ⟨hxs, hx⟩ := separated_concat.mp h
      have hmatch : ∀ i ∈ names owner xs,
          (continues follows x (own owner xs i) = true ↔ i = owner x) :=
        fun i hi => (hx i hi).trans eq_comm
      have hown : (fun i => own owner (xs ++ [x]) i) =
          fun i => if i = owner x then own owner xs i ++ [x] else own owner xs i :=
        funext (own_concat xs x)
      rw [threads_concat, ih hxs, place, firstOr, List.any_map, names_concat]
      by_cases hx : owner x ∈ names owner xs
      · have hany : (names owner xs).any (continues follows x ∘ own owner xs) = true :=
          List.any_eq_true.mpr ⟨owner x, hx, (hmatch _ hx).mpr rfl⟩
        rw [if_pos hany, if_pos hx, update_map (names_nodup xs) hmatch]
        exact congrArg (List.map · _) hown.symm
      · have hnone : ¬ (names owner xs).any (continues follows x ∘ own owner xs) = true := by
          intro hany
          obtain ⟨i, hi, hcont⟩ := List.any_eq_true.mp hany
          exact hx ((hmatch i hi).mp hcont ▸ hi)
        have hempty : own owner xs (owner x) = [] := by
          by_contra hne
          exact hx (own_ne_nil.mp hne)
        rw [if_neg hnone, if_neg hx, List.map_append]
        congr 1
        · refine List.map_congr_left fun i hi => ?_
          have hix : i ≠ owner x := by
            rintro rfl
            exact hx hi
          rw [own_concat, if_neg hix]
        · rw [List.map_singleton, own_concat, if_pos rfl, hempty, List.nil_append]

end threads
end Threads
