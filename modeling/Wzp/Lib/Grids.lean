import Mathlib.Data.List.Pairwise
import Wzp.Lib.Copies

/-!
# Grids in buffers

Cells in rows and columns are read at some place of a buffer and written at some place of
another one. They are all there in the end, if no two are written to one place.
-/
/-- Cells in rows and columns, and where each is read and written. -/
structure Grid (α : Type*) where
  source : List α
  rows : ℕ
  cols : ℕ
  read : ℕ → ℕ → ℕ
  write : ℕ → ℕ → ℕ

namespace Grid
variable {α : Type*}

/-- A cell is written to `i` and is `x`. -/
def Cell (g : Grid α) (i : ℕ) (x : Option α) : Prop :=
  ∃ row < g.rows, ∃ col < g.cols, i = g.write row col ∧ x = g.source[g.read row col]?

/-- The copies write every cell of the grids, and nothing else. -/
structure Drawn (gs : List (Grid α)) (cs : List (Copy α)) : Prop where
  cells : ∀ c ∈ cs, ∀ i, c.Covers i → ∃ g ∈ gs, g.Cell i (c.value i)
  covered : ∀ g ∈ gs, ∀ row < g.rows, ∀ col < g.cols, ∃ c ∈ cs, c.Covers (g.write row col)

variable {gs gs' : List (Grid α)} {cs cs' : List (Copy α)} {out out' : List α}

theorem Drawn.append (h : Drawn gs cs) (h' : Drawn gs' cs') : Drawn (gs ++ gs') (cs ++ cs') where
  cells c hc i hcovers := by
    rcases List.mem_append.mp hc with hfirst | hsecond
    · obtain ⟨g, hg, hcell⟩ := h.cells c hfirst i hcovers
      exact ⟨g, List.mem_append_left gs' hg, hcell⟩
    · obtain ⟨g, hg, hcell⟩ := h'.cells c hsecond i hcovers
      exact ⟨g, List.mem_append_right gs hg, hcell⟩
  covered g hg row hrow col hcol := by
    rcases List.mem_append.mp hg with hfirst | hsecond
    · obtain ⟨c, hc, hcovers⟩ := h.covered g hfirst row hrow col hcol
      exact ⟨c, List.mem_append_left cs' hc, hcovers⟩
    · obtain ⟨c, hc, hcovers⟩ := h'.covered g hsecond row hrow col hcol
      exact ⟨c, List.mem_append_right cs hc, hcovers⟩

/-- A copy of one cell. -/
def single (g : Grid α) (row col : ℕ) : Copy α :=
  ⟨g.source, g.read row col, g.write row col, 1⟩

theorem single_cell {g : Grid α} {row col i : ℕ} (hrow : row < g.rows) (hcol : col < g.cols)
    (hcovers : (g.single row col).Covers i) : g.Cell i ((g.single row col).value i) := by
  obtain ⟨k, hk, rfl⟩ := Copy.covers_iff.mp hcovers
  obtain rfl := Nat.lt_one_iff.mp hk
  exact ⟨row, hrow, col, hcol, rfl, Copy.value_add _ _ _ _ _⟩

theorem single_covers (g : Grid α) (row col : ℕ) : (g.single row col).Covers (g.write row col) :=
  Copy.covers_iff.mpr ⟨0, Nat.zero_lt_one, rfl⟩

/-- Two grids of one size, cell by cell in turn. -/
theorem drawn_pairs {g g' : Grid α} (hrows : g'.rows = g.rows) (hcols : g'.cols = g.cols) :
    Drawn [g, g'] ((List.range g.rows).flatMap fun row => (List.range g.cols).flatMap fun col =>
      [g.single row col, g'.single row col]) := by
  constructor
  · intro c hc i hcovers
    obtain ⟨row, hrow, hc⟩ := List.mem_flatMap.mp hc
    obtain ⟨col, hcol, hc⟩ := List.mem_flatMap.mp hc
    rw [List.mem_range] at hrow hcol
    rcases List.mem_pair.mp hc with rfl | rfl
    · exact ⟨g, List.mem_cons_self, single_cell hrow hcol hcovers⟩
    · exact ⟨g', List.mem_cons_of_mem _ List.mem_cons_self,
        single_cell (hrows ▸ hrow) (hcols ▸ hcol) hcovers⟩
  · intro g₁ hg row hrow col hcol
    rcases List.mem_pair.mp hg with rfl | rfl
    · exact ⟨_, List.mem_flatMap.mpr ⟨row, List.mem_range.mpr hrow, List.mem_flatMap.mpr
        ⟨col, List.mem_range.mpr hcol, List.mem_cons_self⟩⟩, single_covers _ row col⟩
    · rw [hrows] at hrow
      rw [hcols] at hcol
      exact ⟨_, List.mem_flatMap.mpr ⟨row, List.mem_range.mpr hrow, List.mem_flatMap.mpr
        ⟨col, List.mem_range.mpr hcol, List.mem_cons_of_mem _ List.mem_cons_self⟩⟩,
        single_covers _ row col⟩

/-- Every cell is in its place. -/
def Shown (g : Grid α) (out : List α) : Prop :=
  ∀ row < g.rows, ∀ col < g.cols, out[g.write row col]? = g.source[g.read row col]?

/-! ## Cells that do not get in each other's way -/

/-- Where both grids write, they write the same. -/
def Agree (g g' : Grid α) : Prop := ∀ i x x', g.Cell i x → g'.Cell i x' → x = x'

variable {g g' : Grid α} {x : Option α} {i n row col dst stride step shift shift' : ℕ}

instance : Std.Symm (Agree (α := α)) where
  symm _ _ h i x x' hx hx' := (h i x' x hx' hx).symm

/-- Grids that write different regions agree. -/
theorem agree_of_regions (h : ∀ i x, g.Cell i x → i < n) (h' : ∀ i x, g'.Cell i x → n ≤ i) :
    g.Agree g' :=
  fun i x x' hx hx' => absurd (h i x hx) (Nat.not_lt.mpr (h' i x' hx'))

/-- Every cell of grids that agree is in its place in the end. -/
theorem Drawn.shown (h : Drawn gs cs) (hout : Copy.allInto out cs = some out')
    (hself : ∀ g ∈ gs, g.Agree g) (hpair : gs.Pairwise Agree) (hg : g ∈ gs) : g.Shown out' := by
  intro row hrow col hcol
  refine Copy.allInto_getElem? hout (fun c hc hcovers => ?_)
    (Or.inl (h.covered g hg row hrow col hcol))
  obtain ⟨g', hg', hcell⟩ := h.cells c hc _ hcovers
  have hagree : g'.Agree g :=
    List.Pairwise.forall_of_forall hself hpair hg' hg
  exact hagree _ _ _ hcell ⟨row, hrow, col, hcol, rfl, rfl⟩

/-! ## Rows at a fixed distance -/

/-- Rows are written `stride` apart, the cells of a row `step` apart. -/
structure Strided (g : Grid α) (dst stride step shift : ℕ) : Prop where
  write : ∀ row col, g.write row col = dst + row * stride + (col * step + shift)
  shift_lt : shift < step
  cols_le : g.cols * step ≤ stride

theorem row_end {row rows : ℕ} (h : row < rows) (stride : ℕ) :
    row * stride + stride ≤ rows * stride := by
  rw [← Nat.succ_mul]
  exact Nat.mul_le_mul_right stride h

theorem cell_end {row rows col cols stride : ℕ} (hrow : row < rows) (hcol : col < cols)
    (hcols : cols ≤ stride) : row * stride + col < rows * stride := by
  have hend := row_end hrow stride
  omega

/-- A place is in one row and one column only. -/
theorem place_unique {row row' col col' stride : ℕ} (hcol : col < stride) (hcol' : col' < stride)
    (h : row * stride + col = row' * stride + col') : row = row' ∧ col = col' := by
  rcases Nat.lt_trichotomy row row' with hlt | rfl | hgt
  · have hend := row_end hlt stride
    omega
  · exact ⟨rfl, Nat.add_left_cancel h⟩
  · have hend := row_end hgt stride
    omega

theorem exists_place {i rows cols : ℕ} (h : i < rows * cols) :
    ∃ row < rows, ∃ col < cols, i = row * cols + col := by
  have hcols : 0 < cols := Nat.pos_of_mul_pos_left (Nat.zero_lt_of_lt h)
  exact ⟨i / cols, Nat.div_lt_of_lt_mul ((Nat.mul_comm rows cols).symm ▸ h), i % cols,
    Nat.mod_lt i hcols, (Nat.div_add_mod' i cols).symm⟩

theorem Strided.place_lt (h : g.Strided dst stride step shift) (hcol : col < g.cols) :
    col * step + shift < stride :=
  Nat.lt_of_lt_of_le (cell_end hcol h.shift_lt (Nat.le_refl step)) h.cols_le

/-- All cells are written behind `dst` and in as many rows as there are. -/
theorem Strided.region (h : g.Strided dst stride step shift) (hcell : g.Cell i x) :
    dst ≤ i ∧ i < dst + g.rows * stride := by
  obtain ⟨row, hrow, col, hcol, rfl, rfl⟩ := hcell
  have hend := cell_end hrow (h.place_lt hcol) (Nat.le_refl stride)
  rw [h.write]
  omega

theorem Strided.agree_self (h : g.Strided dst stride step shift) : g.Agree g := by
  rintro i x x' ⟨row, hrow, col, hcol, rfl, rfl⟩ ⟨row', hrow', col', hcol', hplace, rfl⟩
  rw [h.write, h.write, Nat.add_assoc, Nat.add_assoc] at hplace
  obtain ⟨rfl, hstep⟩ := place_unique (h.place_lt hcol) (h.place_lt hcol')
    (Nat.add_left_cancel hplace)
  obtain ⟨rfl, -⟩ := place_unique h.shift_lt h.shift_lt hstep
  rfl

/-- Cells that are shifted against each other are at different places. -/
theorem Strided.agree_shift (h : g.Strided dst stride step shift)
    (h' : g'.Strided dst stride step shift') (hne : shift ≠ shift') : g.Agree g' := by
  rintro i x x' ⟨row, hrow, col, hcol, rfl, rfl⟩ ⟨row', hrow', col', hcol', hplace, rfl⟩
  rw [h.write, h'.write, Nat.add_assoc, Nat.add_assoc] at hplace
  obtain ⟨rfl, hstep⟩ := place_unique (h.place_lt hcol) (h'.place_lt hcol')
    (Nat.add_left_cancel hplace)
  exact absurd (place_unique h.shift_lt h'.shift_lt hstep).2 hne

/-- Grids that write one behind the other agree. -/
theorem Strided.agree_before {dst' stride' step' : ℕ} (h : g.Strided dst stride step shift)
    (h' : g'.Strided dst' stride' step' shift') (hbefore : dst + g.rows * stride ≤ dst') :
    g.Agree g' :=
  agree_of_regions (fun _ _ hcell => Nat.lt_of_lt_of_le (h.region hcell).2 hbefore)
    fun _ _ hcell => (h'.region hcell).1

/-- Three grids of which the first is written before the others. -/
theorem Drawn.shown_three {g₁ g₂ g₃ : Grid α} {dst₁ dst₂ dst₃ stride₁ stride₂ stride₃ step₁ step₂
    step₃ shift₁ shift₂ shift₃ : ℕ} (h : Drawn [g₁, g₂, g₃] cs)
    (hout : Copy.allInto out cs = some out') (h₁ : g₁.Strided dst₁ stride₁ step₁ shift₁)
    (h₂ : g₂.Strided dst₂ stride₂ step₂ shift₂) (h₃ : g₃.Strided dst₃ stride₃ step₃ shift₃)
    (h₁₂ : dst₁ + g₁.rows * stride₁ ≤ dst₂) (h₁₃ : dst₁ + g₁.rows * stride₁ ≤ dst₃)
    (h₂₃ : g₂.Agree g₃) : g₁.Shown out' ∧ g₂.Shown out' ∧ g₃.Shown out' := by
  have hall : ∀ g ∈ [g₁, g₂, g₃], g.Shown out' := fun g => by
    refine h.shown hout ?_ ?_
    · simp only [List.forall_mem_cons, List.not_mem_nil, false_implies, implies_true, and_true]
      exact ⟨h₁.agree_self, h₂.agree_self, h₃.agree_self⟩
    · simp only [List.pairwise_cons, List.forall_mem_cons, List.not_mem_nil, false_implies,
        implies_true, and_true, List.Pairwise.nil]
      exact ⟨⟨h₁.agree_before h₂ h₁₂, h₁.agree_before h₃ h₁₃⟩, h₂₃⟩
  exact ⟨hall _ List.mem_cons_self, hall _ (List.mem_cons_of_mem _ List.mem_cons_self),
    hall _ (List.mem_cons_of_mem _ (List.mem_cons_of_mem _ List.mem_cons_self))⟩

end Grid
