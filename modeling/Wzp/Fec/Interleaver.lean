import Wzp.Fec.RaptorQ
import Wzp.Lib.RoundRobin

/-!
# Interleaving

The symbols of several blocks are sent by turns, so that a burst of losses takes little
from each block instead of much from one.
-/
namespace Wzp.Fec
open Bytes

/-- A symbol to be sent, with the number of its block. -/
structure Symbol where
  blockId : UInt16
  symbolIndex : UInt16
  isRepair : Bool
  data : Buf
  deriving DecidableEq, Repr

structure Interleaver where
  depth : ℕ
  deriving DecidableEq, Repr

namespace Interleaver

def withDefaultDepth : Interleaver := ⟨3⟩

/-- Slot by slot, the symbol of each block. The depth plays no part: the blocks are those
that the caller passes. -/
def interleave (_ : Interleaver) (blocks : List (List Symbol)) : List Symbol :=
  if blocks.isEmpty then []
  else
    let maxLen := (blocks.map List.length).max?.getD 0
    (List.range maxLen).flatMap fun slot => blocks.filterMap fun block => block[slot]?

end Interleaver

/-! ## Batches -/

/-- The symbols of one block, which carry its number. -/
structure SymbolBlock where
  id : UInt16
  symbols : List Symbol
  labelled : ∀ s ∈ symbols, s.blockId = id

/-- Blocks with different numbers, which are sent together. -/
structure Batch where
  blocks : List SymbolBlock
  distinct : (blocks.map SymbolBlock.id).Nodup

namespace Batch

def symbols (batch : Batch) : List (List Symbol) := batch.blocks.map SymbolBlock.symbols

/-- The symbols that a burst of losses takes. -/
def burst (sent : List Symbol) (start count : ℕ) : List Symbol := (sent.drop start).take count

/-- How many symbols of a block are among some symbols. -/
def ofBlock (id : UInt16) (symbols : List Symbol) : ℕ :=
  symbols.countP fun s => decide (s.blockId = id)

variable {batch : Batch} {before after : List SymbolBlock} {own b : SymbolBlock}

theorem length_le_max (hb : b ∈ batch.blocks) :
    b.symbols.length ≤ (batch.symbols.map List.length).max?.getD 0 := by
  have hmem : b.symbols.length ∈ batch.symbols.map List.length := by
    simp only [symbols, List.map_map, List.mem_map, Function.comp_apply]
    exact ⟨b, hb, rfl⟩
  cases hmax : (batch.symbols.map List.length).max? with
  | none =>
      rw [List.max?_eq_none_iff.mp hmax] at hmem
      cases hmem
  | some m => exact (List.max?_eq_some_iff.mp hmax).2 _ hmem

theorem interleave_eq_turns (il : Interleaver) (batch : Batch) :
    il.interleave batch.symbols =
      RoundRobin.turns ((batch.symbols.map List.length).max?.getD 0) batch.symbols := by
  unfold Interleaver.interleave
  split
  · next hnil =>
      rw [List.isEmpty_iff.mp hnil]
      rfl
  · rfl

/-- A block's number tells its symbols from those of the blocks beside it. -/
theorem marks (h : batch.blocks = before ++ own :: after) :
    RoundRobin.Marks (fun s : Symbol => decide (s.blockId = own.id))
      (before.map SymbolBlock.symbols) own.symbols (after.map SymbolBlock.symbols) := by
  have hnodup := batch.distinct
  rw [h, List.map_append, List.map_cons, List.nodup_middle, List.nodup_cons, List.mem_append] at hnodup
  have hother : ∀ b, b ∈ before ∨ b ∈ after → ∀ s ∈ b.symbols, decide (s.blockId = own.id) = false := by
    intro b hb s hs
    rw [b.labelled s hs]
    refine decide_eq_false fun hid => hnodup.1 ?_
    rw [← hid]
    exact hb.imp (List.mem_map_of_mem (f := SymbolBlock.id)) (List.mem_map_of_mem (f := SymbolBlock.id))
  constructor
  · intro s hs
    exact decide_eq_true (own.labelled s hs)
  · intro l hl
    obtain ⟨b, hb, rfl⟩ := List.mem_map.mp hl
    exact hother b (Or.inl hb)
  · intro l hl
    obtain ⟨b, hb, rfl⟩ := List.mem_map.mp hl
    exact hother b (Or.inr hb)

theorem own_mem (h : batch.blocks = before ++ own :: after) : own ∈ batch.blocks := by
  simp [h]

theorem symbols_split (h : batch.blocks = before ++ own :: after) :
    batch.symbols = before.map SymbolBlock.symbols ++ own.symbols :: after.map SymbolBlock.symbols := by
  simp [symbols, h]

/-- Each block is sent in its own order, and nothing else under its number. -/
theorem filter_interleave (il : Interleaver) (hb : b ∈ batch.blocks) :
    (il.interleave batch.symbols).filter (fun s => decide (s.blockId = b.id)) = b.symbols := by
  obtain ⟨before, after, hsplit⟩ := List.append_of_mem hb
  rw [interleave_eq_turns, symbols_split hsplit]
  apply RoundRobin.filter_turns (marks hsplit)
  rw [← symbols_split hsplit]
  exact length_le_max hb

/-- No burst takes more than its share of a block, exactly when no block before it is shorter
and no block after it is shorter by two symbols. -/
theorem burst_spread_iff (il : Interleaver) (h : batch.blocks = before ++ own :: after) :
    (∀ start count, ofBlock own.id (burst (il.interleave batch.symbols) start count) ≤
        (count + (batch.blocks.length - 1)) / batch.blocks.length) ↔
      own.symbols.length ≤ 1 ∨ ((∀ b ∈ before, own.symbols.length ≤ b.symbols.length) ∧
        ∀ b ∈ after, own.symbols.length ≤ b.symbols.length + 1) := by
  have hlen : batch.blocks.length =
      (before.map SymbolBlock.symbols).length + (after.map SymbolBlock.symbols).length + 1 := by
    simp only [h, List.length_append, List.length_cons, List.length_map]
    omega
  have hmax := length_le_max (own_mem h)
  have hiff := RoundRobin.burst_iff (marks h) hmax hlen
  rw [← symbols_split h, ← interleave_eq_turns il] at hiff
  simpa [ofBlock, burst] using hiff

def twoSymbols : SymbolBlock := ⟨7, [⟨7, 0, false, [1]⟩, ⟨7, 1, true, [2]⟩], by decide⟩

def oneSymbol : SymbolBlock := ⟨8, [⟨8, 0, false, [3]⟩], by decide⟩

theorem burst_spread_two_and_one :
    (∀ start count, ofBlock 7 (burst (Interleaver.withDefaultDepth.interleave
        (Batch.mk [twoSymbols, oneSymbol] (by decide)).symbols) start count) ≤ (count + (2 - 1)) / 2) ↔
      2 ≤ 1 ∨ ((∀ b ∈ ([] : List SymbolBlock), 2 ≤ b.symbols.length) ∧
        ∀ b ∈ [oneSymbol], 2 ≤ b.symbols.length + 1) :=
  burst_spread_iff .withDefaultDepth
    (show (Batch.mk [twoSymbols, oneSymbol] (by decide)).blocks = [] ++ twoSymbols :: [oneSymbol] from rfl)

end Batch
end Wzp.Fec
