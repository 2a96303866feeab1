import Mathlib.Data.List.Basic
import Mathlib.Data.Nat.ModEq
import Mathlib.Tactic.Common
import Wzp.Lib.Runs

/-!
# Labels of symbols in blocks

A sender numbers the symbols of a block from zero and closes the block with
parity symbols numbered behind them. Only the residues of the two numbers are
sent. Fillers borrow the first number, and a restart numbers from zero again
without a new block.
-/
namespace BlockLabels
open Runs

inductive Content where
  | data (time : ℕ)
  | parity (block index : ℕ)
  | filler
  deriving DecidableEq, Repr

structure Symbol where
  block : ℕ
  index : ℕ
  content : Content
  deriving DecidableEq, Repr

structure State where
  block : ℕ
  next : ℕ
  time : ℕ
  sent : List Symbol

inductive Event where
  | data
  | closing (parity : ℕ)
  | filler
  | restart
  | other

variable (m : ℕ)

def start : State := ⟨0, 0, 0, []⟩

def paritySymbols (s : State) (parity : ℕ) : List Symbol :=
  (List.range parity).map fun i => ⟨s.block, s.next + 1 + i, .parity s.block i⟩

def step (s : State) : Event → State
  | .data =>
      { s with
        next := s.next + 1
        time := s.time + 1
        sent := s.sent ++ [⟨s.block, s.next, .data s.time⟩] }
  | .closing parity =>
      { block := s.block + 1
        next := 0
        time := s.time + 1
        sent := s.sent ++ ⟨s.block, s.next, .data s.time⟩ :: paritySymbols s parity }
  | .filler => { s with time := s.time + 1, sent := s.sent ++ [⟨s.block, 0, .filler⟩] }
  | .restart => { s with next := 0, time := s.time + 1 }
  | .other => { s with time := s.time + 1 }

/-- Two symbols that can be told apart by their blocks only if they are less
than `m` blocks apart. -/
def Near (p q : Symbol) : Prop := p.block < q.block + m ∧ q.block < p.block + m

def SameLabel (p q : Symbol) : Prop := p.block % m = q.block % m ∧ p.index % m = q.index % m

/-- Near symbols with one label have one content. -/
def Identifies (s : State) : Prop :=
  ∀ p ∈ s.sent, ∀ q ∈ s.sent, Near m p q → SameLabel m p q → p.content = q.content

def Symbol.IsData (p : Symbol) : Prop := ∃ n, p.content = .data n

instance Symbol.IsData.decidable : (p : Symbol) → Decidable p.IsData
  | ⟨_, _, .data n⟩ => isTrue ⟨n, rfl⟩
  | ⟨_, _, .parity _ _⟩ => isFalse nofun
  | ⟨_, _, .filler⟩ => isFalse nofun

/-- Data that is numbered from zero finds nothing in its block, fillers find no
data there, and all symbols of a block fit the numbers there are. -/
def Separate (s : State) : Event → Prop
  | .data => s.next < m ∧ (s.next = 0 → ∀ p ∈ s.sent, p.block ≠ s.block)
  | .closing parity => s.next + 1 + parity ≤ m ∧ (s.next = 0 → ∀ p ∈ s.sent, p.block ≠ s.block)
  | .filler => ∀ p ∈ s.sent, p.block = s.block → ¬ p.IsData
  | .restart => True
  | .other => True

/-- The first data symbol of the block. -/
def Opened (s : State) : Prop := ∃ q ∈ s.sent, q.block = s.block ∧ q.index = 0 ∧ q.IsData

structure Inv (s : State) : Prop where
  past : ∀ p ∈ s.sent, p.block ≤ s.block
  timed : ∀ p ∈ s.sent, ∀ n, p.content = .data n → n < s.time
  parity : ∀ p ∈ s.sent, ∀ b i, p.content = .parity b i → p.block < s.block
  filler : ∀ p ∈ s.sent, p.content = .filler → p.index = 0
  opened : ∀ p ∈ s.sent, p.block = s.block → p.IsData → Opened s
  begun : 0 < s.next → Opened s
  only : 0 < s.next → ∀ p ∈ s.sent, p.block = s.block → p.IsData ∧ p.index < s.next
  bounded : s.next ≤ m

variable {m} {s : State} {p q : Symbol}

theorem start_inv : Inv m start := by
  constructor
  · exact fun p hp => absurd hp List.not_mem_nil
  · exact fun p hp => absurd hp List.not_mem_nil
  · exact fun p hp => absurd hp List.not_mem_nil
  · exact fun p hp => absurd hp List.not_mem_nil
  · exact fun p hp => absurd hp List.not_mem_nil
  · exact fun h => absurd h (Nat.lt_irrefl 0)
  · exact fun h => absurd h (Nat.lt_irrefl 0)
  · exact Nat.zero_le m

theorem Near.block_eq (h : Near m p q) (hmod : p.block % m = q.block % m) : p.block = q.block := by
  obtain ⟨hpq, hqp⟩ := h
  rcases Nat.le_total p.block q.block with hle | hle
  · have hdvd := (Nat.modEq_iff_dvd' hle).mp hmod
    have hzero := Nat.eq_zero_of_dvd_of_lt hdvd (by omega)
    omega
  · have hdvd := (Nat.modEq_iff_dvd' hle).mp hmod.symm
    have hzero := Nat.eq_zero_of_dvd_of_lt hdvd (by omega)
    omega

theorem near_of_block_eq (hm : 0 < m) (h : p.block = q.block) : Near m p q := by
  constructor
  · omega
  · omega

/-- What new symbols of one block add to the condition. -/
theorem identifies_append (hm : 0 < m) {sent new : List Symbol} {b : ℕ}
    (hnew : ∀ p ∈ new, p.block = b)
    (hold : ∀ p ∈ sent, ∀ q ∈ sent, Near m p q → SameLabel m p q → p.content = q.content) :
    (∀ p ∈ sent ++ new, ∀ q ∈ sent ++ new, Near m p q → SameLabel m p q → p.content = q.content) ↔
      ∀ p ∈ new, ∀ q ∈ sent ++ new, q.block = b → p.index % m = q.index % m →
        p.content = q.content := by
  constructor
  · intro h p hp q hq hblock hindex
    have heq : p.block = q.block := (hnew p hp).trans hblock.symm
    exact h p (List.mem_append_right _ hp) q hq (near_of_block_eq hm heq)
      ⟨congrArg (· % m) heq, hindex⟩
  · intro h p hp q hq hnear hlabel
    have heq := hnear.block_eq hlabel.1
    rcases List.mem_append.mp hp with hp | hp
    · rcases List.mem_append.mp hq with hq | hq
      · exact hold p hp q hq hnear hlabel
      · have hpb : p.block = b := heq.trans (hnew q hq)
        exact (h q hq p (List.mem_append_left _ hp) hpb hlabel.2.symm).symm
    · exact h p hp q hq (heq.symm.trans (hnew p hp)) hlabel.2

theorem mem_paritySymbols {parity : ℕ} :
    p ∈ paritySymbols s parity ↔
      ∃ i, i < parity ∧ p = ⟨s.block, s.next + 1 + i, .parity s.block i⟩ := by
  simp only [paritySymbols, List.mem_map, List.mem_range, eq_comm]

/-! ## One step -/

theorem Inv.not_data_time (h : Inv m s) (hp : p ∈ s.sent) : Content.data s.time ≠ p.content := by
  intro heq
  exact Nat.lt_irrefl _ (h.timed p hp s.time heq.symm)

/-- Anything in the current block comes with a symbol numbered zero. -/
theorem Inv.zero_of_mem (h : Inv m s) (hp : p ∈ s.sent) (hblock : p.block = s.block) :
    ∃ q ∈ s.sent, q.block = s.block ∧ q.index = 0 := by
  cases hc : p.content with
  | data n =>
      obtain ⟨q, hq, hqb, hqi, _⟩ := h.opened p hp hblock ⟨n, hc⟩
      exact ⟨q, hq, hqb, hqi⟩
  | parity b i => exact absurd hblock (Nat.ne_of_lt (h.parity p hp b i hc))
  | filler => exact ⟨p, hp, hblock, h.filler p hp hc⟩

/-- The next data symbol has a number of its own exactly if the step is separate. -/
theorem next_free_iff (h : Inv m s) (hm : 0 < m) :
    (∀ q ∈ s.sent, q.block = s.block → s.next % m ≠ q.index % m) ↔
      s.next < m ∧ (s.next = 0 → ∀ p ∈ s.sent, p.block ≠ s.block) := by
  constructor
  · intro hfree
    constructor
    · rcases Nat.lt_or_eq_of_le h.bounded with hlt | heq
      · exact hlt
      · obtain ⟨q, hq, hqb, hqi, _⟩ := h.begun (heq ▸ hm)
        refine absurd ?_ (hfree q hq hqb)
        rw [hqi, heq, Nat.mod_self, Nat.zero_mod]
    · intro hzero p hp hblock
      obtain ⟨q, hq, hqb, hqi⟩ := h.zero_of_mem hp hblock
      exact hfree q hq hqb (by rw [hzero, hqi])
  · rintro ⟨hlt, hempty⟩ q hq hqb hmod
    rcases Nat.eq_zero_or_pos s.next with hzero | hpos
    · exact hempty hzero q hq hqb
    · have hqi := (h.only hpos q hq hqb).2
      rw [Nat.mod_eq_of_lt hlt, Nat.mod_eq_of_lt (Nat.lt_trans hqi hlt)] at hmod
      omega

theorem identifies_data (h : Inv m s) (hm : 0 < m) (hold : Identifies m s) :
    Identifies m (step s .data) ↔ Separate m s .data := by
  have hblock : ∀ p ∈ [(⟨s.block, s.next, .data s.time⟩ : Symbol)], p.block = s.block := by
    intro p hp
    obtain rfl := List.mem_singleton.mp hp
    rfl
  refine (identifies_append hm hblock hold).trans (Iff.trans ?_ (next_free_iff h hm))
  simp only [List.mem_singleton, forall_eq, List.mem_append]
  constructor
  · intro hall q hq hqb hmod
    exact h.not_data_time hq (hall q (Or.inl hq) hqb hmod)
  · intro hfree q hq hqb hmod
    rcases hq with hq | rfl
    · exact absurd hmod (hfree q hq hqb)
    · rfl

theorem identifies_filler (h : Inv m s) (hm : 0 < m) (hold : Identifies m s) :
    Identifies m (step s .filler) ↔ Separate m s .filler := by
  have hblock : ∀ p ∈ [(⟨s.block, 0, .filler⟩ : Symbol)], p.block = s.block := by
    intro p hp
    obtain rfl := List.mem_singleton.mp hp
    rfl
  refine (identifies_append hm hblock hold).trans ?_
  simp only [List.mem_singleton, forall_eq, List.mem_append, Nat.zero_mod]
  constructor
  · intro hall p hp hpb hdata
    obtain ⟨q, hq, hqb, hqi, n, hqn⟩ := h.opened p hp hpb hdata
    have heq := hall q (Or.inl hq) hqb (by rw [hqi, Nat.zero_mod])
    rw [hqn] at heq
    cases heq
  · intro hnone q hq hqb _
    rcases hq with hq | rfl
    · cases hc : q.content with
      | data n => exact absurd ⟨n, hc⟩ (hnone q hq hqb)
      | parity b i => exact absurd hqb (Nat.ne_of_lt (h.parity q hq b i hc))
      | filler => rfl
    · rfl

/-! ### A closed block -/

/-- The symbol that is numbered `i` after the next when a block is closed. -/
def closingSymbol (s : State) (i : ℕ) : Symbol :=
  ⟨s.block, s.next + i, if i = 0 then .data s.time else .parity s.block (i - 1)⟩

theorem mem_closing {parity : ℕ} :
    p ∈ (⟨s.block, s.next, .data s.time⟩ :: paritySymbols s parity : List Symbol) ↔
      ∃ i ≤ parity, p = closingSymbol s i := by
  rw [List.mem_cons, mem_paritySymbols]
  constructor
  · rintro (rfl | ⟨i, hi, rfl⟩)
    · exact ⟨0, Nat.zero_le parity, rfl⟩
    · refine ⟨i + 1, hi, ?_⟩
      rw [closingSymbol, if_neg i.succ_ne_zero, Nat.add_sub_cancel, Nat.add_assoc, Nat.add_comm 1 i]
  · rintro ⟨i, hi, rfl⟩
    cases i with
    | zero => exact Or.inl rfl
    | succ i =>
        refine Or.inr ⟨i, hi, ?_⟩
        rw [closingSymbol, if_neg i.succ_ne_zero, Nat.add_sub_cancel, Nat.add_assoc, Nat.add_comm 1 i]

/-- The block has its first data symbol once it is closed. -/
theorem Inv.opened_closing (h : Inv m s) (parity : ℕ) : ∃ q ∈ s.sent ++
    (⟨s.block, s.next, .data s.time⟩ :: paritySymbols s parity : List Symbol),
      q.block = s.block ∧ q.index = 0 ∧ q.IsData := by
  rcases Nat.eq_zero_or_pos s.next with hzero | hpos
  · exact ⟨_, List.mem_append_right _ List.mem_cons_self, rfl, hzero, s.time, rfl⟩
  · obtain ⟨q, hq, hfirst⟩ := h.begun hpos
    exact ⟨q, List.mem_append_left _ hq, hfirst⟩

/-- The symbols of a block that is closed have numbers of their own. -/
theorem closing_separate (h : Inv m s) {parity : ℕ} (hfits : s.next + 1 + parity ≤ m)
    (hempty : s.next = 0 → ∀ p ∈ s.sent, p.block ≠ s.block) {i : ℕ} (hi : i ≤ parity)
    (hq : q ∈ s.sent ++ (⟨s.block, s.next, .data s.time⟩ :: paritySymbols s parity : List Symbol))
    (hblock : q.block = s.block) (hmod : (closingSymbol s i).index % m = q.index % m) :
    (closingSymbol s i).content = q.content := by
  have hindex : ∀ {j}, j ≤ parity → (closingSymbol s j).index % m = s.next + j := fun hj =>
    Nat.mod_eq_of_lt (show s.next + _ < m by omega)
  rw [hindex hi] at hmod
  rcases List.mem_append.mp hq with hsent | hnew
  · have hbelow : q.index < s.next := by
      rcases Nat.eq_zero_or_pos s.next with hzero | hpos
      · exact absurd hblock (hempty hzero q hsent)
      · exact (h.only hpos q hsent hblock).2
    rw [Nat.mod_eq_of_lt (by omega)] at hmod
    omega
  · obtain ⟨j, hj, rfl⟩ := mem_closing.mp hnew
    rw [hindex hj] at hmod
    rw [Nat.add_left_cancel hmod]

theorem identifies_closing (h : Inv m s) (hm : 0 < m) (hold : Identifies m s) (parity : ℕ) :
    Identifies m (step s (.closing parity)) ↔ Separate m s (.closing parity) := by
  have hblock : ∀ p ∈ ⟨s.block, s.next, .data s.time⟩ :: paritySymbols s parity,
      p.block = s.block := by
    intro p hp
    obtain ⟨i, -, rfl⟩ := mem_closing.mp hp
    rfl
  refine (identifies_append hm hblock hold).trans ?_
  constructor
  · intro hall
    have hfree : ∀ q ∈ s.sent, q.block = s.block → s.next % m ≠ q.index % m := by
      intro q hq hqb hmod
      exact h.not_data_time hq (hall _ List.mem_cons_self q (List.mem_append_left _ hq) hqb hmod)
    obtain ⟨hlt, hempty⟩ := (next_free_iff h hm).mp hfree
    refine ⟨?_, hempty⟩
    -- otherwise one parity symbol has the number zero again
    by_contra hlong
    obtain ⟨q, hq, hqb, hqi, n, hqn⟩ := h.opened_closing parity
    have hwrap : (closingSymbol s (m - s.next)).index % m = q.index % m := by
      rw [closingSymbol, Nat.add_sub_of_le hlt.le, Nat.mod_self, hqi, Nat.zero_mod]
    have heq := hall _ (mem_closing.mpr ⟨m - s.next, by omega, rfl⟩) q hq hqb hwrap
    rw [hqn, closingSymbol, if_neg (by omega)] at heq
    cases heq
  · rintro ⟨hfits, hempty⟩ p hp q hq hqb hmod
    obtain ⟨i, hi, rfl⟩ := mem_closing.mp hp
    exact closing_separate h hfits hempty hi hq hqb hmod

/-- A step keeps the labels unambiguous exactly if it is separate. -/
theorem identifies_step (h : Inv m s) (hm : 0 < m) (hold : Identifies m s) (e : Event) :
    Identifies m (step s e) ↔ Separate m s e := by
  cases e with
  | data => exact identifies_data h hm hold
  | closing parity => exact identifies_closing h hm hold parity
  | filler => exact identifies_filler h hm hold
  | restart => exact iff_of_true hold trivial
  | other => exact iff_of_true hold trivial

theorem inv_data (h : Inv m s) (hsep : Separate m s .data) : Inv m (step s .data) := by
  obtain ⟨hlt, hempty⟩ := hsep
  have hnew : (⟨s.block, s.next, .data s.time⟩ : Symbol) ∈ (step s .data).sent :=
    List.mem_append_right _ List.mem_cons_self
  have hopened : Opened (step s .data) := by
    rcases Nat.eq_zero_or_pos s.next with hz | hpos
    · exact ⟨_, hnew, rfl, hz, s.time, rfl⟩
    · obtain ⟨q, hq, hrest⟩ := h.begun hpos
      exact ⟨q, List.mem_append_left _ hq, hrest⟩
  constructor
  · intro p hp
    rcases List.mem_append.mp hp with hp | hp
    · exact h.past p hp
    · obtain rfl := List.mem_singleton.mp hp
      exact Nat.le_refl _
  · intro p hp n hn
    rcases List.mem_append.mp hp with hp | hp
    · exact Nat.lt_succ_of_lt (h.timed p hp n hn)
    · obtain rfl := List.mem_singleton.mp hp
      obtain rfl := Content.data.inj hn
      exact Nat.lt_succ_self _
  · intro p hp b i hi
    rcases List.mem_append.mp hp with hp | hp
    · exact h.parity p hp b i hi
    · obtain rfl := List.mem_singleton.mp hp
      cases hi
  · intro p hp hf
    rcases List.mem_append.mp hp with hp | hp
    · exact h.filler p hp hf
    · obtain rfl := List.mem_singleton.mp hp
      cases hf
  · exact fun _ _ _ _ => hopened
  · exact fun _ => hopened
  · intro _ p hp hpb
    rcases List.mem_append.mp hp with hp | hp
    · rcases Nat.eq_zero_or_pos s.next with hz | hpos
      · exact absurd hpb (hempty hz p hp)
      · obtain ⟨hdata, hindex⟩ := h.only hpos p hp hpb
        exact ⟨hdata, Nat.lt_succ_of_lt hindex⟩
    · obtain rfl := List.mem_singleton.mp hp
      exact ⟨⟨s.time, rfl⟩, Nat.lt_succ_self _⟩
  · exact hlt

theorem inv_filler (h : Inv m s) (hsep : Separate m s .filler) : Inv m (step s .filler) := by
  have hopened : Opened s → Opened (step s .filler) := by
    rintro ⟨q, hq, hrest⟩
    exact ⟨q, List.mem_append_left _ hq, hrest⟩
  constructor
  · intro p hp
    rcases List.mem_append.mp hp with hp | hp
    · exact h.past p hp
    · obtain rfl := List.mem_singleton.mp hp
      exact Nat.le_refl _
  · intro p hp n hn
    rcases List.mem_append.mp hp with hp | hp
    · exact Nat.lt_succ_of_lt (h.timed p hp n hn)
    · obtain rfl := List.mem_singleton.mp hp
      cases hn
  · intro p hp b i hi
    rcases List.mem_append.mp hp with hp | hp
    · exact h.parity p hp b i hi
    · obtain rfl := List.mem_singleton.mp hp
      cases hi
  · intro p hp hf
    rcases List.mem_append.mp hp with hp | hp
    · exact h.filler p hp hf
    · obtain rfl := List.mem_singleton.mp hp
      rfl
  · intro p hp hpb hdata
    rcases List.mem_append.mp hp with hp | hp
    · exact hopened (h.opened p hp hpb hdata)
    · obtain rfl := List.mem_singleton.mp hp
      obtain ⟨n, hn⟩ := hdata
      cases hn
  · exact fun hpos => hopened (h.begun hpos)
  · intro hpos
    -- a block that has begun holds data, and no filler comes after it
    obtain ⟨q, hq, hqb, _, hdata⟩ := h.begun hpos
    exact absurd hdata (hsep q hq hqb)
  · exact h.bounded

theorem inv_closing (h : Inv m s) (parity : ℕ) : Inv m (step s (.closing parity)) := by
  have hblocks : ∀ p ∈ (step s (.closing parity)).sent, p.block < s.block + 1 := by
    intro p hp
    rcases List.mem_append.mp hp with hp | hp
    · exact Nat.lt_succ_of_le (h.past p hp)
    · rcases List.mem_cons.mp hp with rfl | hp
      · exact Nat.lt_succ_self _
      · obtain ⟨i, _, rfl⟩ := mem_paritySymbols.mp hp
        exact Nat.lt_succ_self _
  constructor
  · exact fun p hp => Nat.le_of_lt (hblocks p hp)
  · intro p hp n hn
    rcases List.mem_append.mp hp with hp | hp
    · exact Nat.lt_succ_of_lt (h.timed p hp n hn)
    · rcases List.mem_cons.mp hp with rfl | hp
      · obtain rfl := Content.data.inj hn
        exact Nat.lt_succ_self _
      · obtain ⟨i, _, rfl⟩ := mem_paritySymbols.mp hp
        cases hn
  · exact fun p hp _ _ _ => hblocks p hp
  · intro p hp hf
    rcases List.mem_append.mp hp with hp | hp
    · exact h.filler p hp hf
    · rcases List.mem_cons.mp hp with rfl | hp
      · cases hf
      · obtain ⟨i, _, rfl⟩ := mem_paritySymbols.mp hp
        cases hf
  · exact fun p hp hpb _ => absurd hpb (Nat.ne_of_lt (hblocks p hp))
  · exact fun hpos => absurd hpos (Nat.lt_irrefl 0)
  · exact fun hpos => absurd hpos (Nat.lt_irrefl 0)
  · exact Nat.zero_le m

theorem inv_step (h : Inv m s) {e : Event} (hsep : Separate m s e) : Inv m (step s e) := by
  cases e with
  | data => exact inv_data h hsep
  | closing parity => exact inv_closing h parity
  | filler => exact inv_filler h hsep
  | restart =>
      exact ⟨h.past, fun p hp n hn => Nat.lt_succ_of_lt (h.timed p hp n hn), h.parity, h.filler,
        h.opened, fun hpos => absurd hpos (Nat.lt_irrefl 0),
        fun hpos => absurd hpos (Nat.lt_irrefl 0), Nat.zero_le m⟩
  | other =>
      exact ⟨h.past, fun p hp n hn => Nat.lt_succ_of_lt (h.timed p hp n hn), h.parity, h.filler,
        h.opened, h.begun, h.only, h.bounded⟩

end BlockLabels
