import Cuber.Core.Execution

/-!
# Blocks of memory

A block has a fixed number of cells.  A write outside of it is a fault.

What a piece of code has written from an address on is kept track of with
`Writes`, whose rules follow the order of the writes.
-/

namespace Cuber.Memory

open Cuber.Execution

universe u

structure Block (A : Type u) (size : ℕ) where
  cells : List A
  length_cells : cells.length = size

inductive BoundsFault where
  | outOfBounds
  deriving DecidableEq

namespace Block

variable {A : Type u} {size : ℕ}

def store (block : Block A size) (address : ℕ) (cell : A) : Exec BoundsFault (Block A size) :=
  if address < size then
    .ret ⟨block.cells.set address cell, by rw [List.length_set, block.length_cells]⟩
  else .fault .outOfBounds

/-- `memcpy` of cells from elsewhere. -/
def copy (block : Block A size) (address : ℕ) (cells : List A) :
    Exec BoundsFault (Block A size) :=
  if hfits : address + cells.length ≤ size then
    .ret {
      cells := block.cells.take address ++ cells ++ block.cells.drop (address + cells.length)
      length_cells := by
        have hlength := block.length_cells
        simp only [List.length_append, List.length_take, List.length_drop]
        omega }
  else .fault .outOfBounds

/-- `std::reverse` of the cells between two addresses. -/
def reverse (block : Block A size) (first last : ℕ) : Exec BoundsFault (Block A size) :=
  if hrange : first ≤ last ∧ last ≤ size then
    .ret {
      cells := block.cells.take first ++ ((block.cells.take last).drop first).reverse ++
        block.cells.drop last
      length_cells := by
        have hlength := block.length_cells
        simp only [List.length_append, List.length_take, List.length_reverse, List.length_drop]
        omega }
  else .fault .outOfBounds

/-- The cells before an address. -/
def front (block : Block A size) (address : ℕ) : List A :=
  block.cells.take address

theorem length_front {block : Block A size} {address : ℕ} (hle : address ≤ size) :
    (block.front address).length = address := by
  rw [front, List.length_take, block.length_cells, Nat.min_eq_left hle]

/-! ## What has been written -/

/-- These cells were written from the address on, and none before it. -/
structure Writes (block : Block A size) (address : ℕ) (written : List A)
    (block' : Block A size) : Prop where
  fits : address + written.length ≤ size
  front : block'.front (address + written.length) = block.front address ++ written

section Writes

variable {block block' block'' : Block A size} {address : ℕ} {written later : List A}

/-- Cells that are written behind one another. -/
theorem Writes.trans (hfirst : Writes block address written block')
    (hlater : Writes block' (address + written.length) later block'') :
    Writes block address (written ++ later) block'' := by
  have hlength : address + (written ++ later).length =
      address + written.length + later.length := by
    rw [List.length_append, Nat.add_assoc]
  constructor
  · rw [hlength]
    exact hlater.fits
  · calc
      block''.front (address + (written ++ later).length) =
          block''.front (address + written.length + later.length) := by rw [hlength]
      _ = block'.front (address + written.length) ++ later := hlater.front
      _ = block.front address ++ written ++ later := by rw [hfirst.front]
      _ = block.front address ++ (written ++ later) := List.append_assoc _ _ _

theorem writes_store {cell : A} (hlt : address < size) :
    ∃ block', block.store address cell = .ret block' ∧ Writes block address [cell] block' := by
  refine ⟨_, if_pos hlt, hlt, ?_⟩
  have hlength := block.length_cells
  simp only [front, List.length_singleton]
  rw [List.take_add_one, List.take_set_of_le (Nat.le_refl address),
    List.getElem?_set_self (by omega)]
  rfl

/-- A store behind the cells that were written. -/
theorem Writes.store (hwrites : Writes block address written block') (cell : A)
    (hlt : address + written.length < size) :
    ∃ block'', block'.store (address + written.length) cell = .ret block'' ∧
      Writes block address written block'' := by
  refine ⟨_, if_pos hlt, hwrites.fits, ?_⟩
  rw [← hwrites.front]
  exact List.take_set_of_le (Nat.le_refl _)

theorem writes_copy {cells : List A} (hfits : address + cells.length ≤ size) :
    ∃ block', block.copy address cells = .ret block' ∧ Writes block address cells block' := by
  refine ⟨_, dif_pos hfits, hfits, ?_⟩
  have hlength : (block.cells.take address ++ cells).length = address + cells.length := by
    rw [List.length_append, List.length_take, block.length_cells]
    omega
  exact List.take_left' hlength

/-- What was written is reversed in place. -/
theorem Writes.reverse (hwrites : Writes block address written block') :
    ∃ block'', block'.reverse address (address + written.length) = .ret block'' ∧
      Writes block address written.reverse block'' := by
  have hfits := hwrites.fits
  have hfront : (block.front address).length = address := length_front (by omega)
  refine ⟨_, dif_pos ⟨Nat.le_add_right .., hfits⟩, by rw [List.length_reverse]; exact hfits, ?_⟩
  have hwritten : (block'.cells.take (address + written.length)).drop address = written := by
    change (block'.front _).drop address = written
    rw [hwrites.front]
    exact List.drop_left' hfront
  have hbefore : block'.cells.take address = block.front address := by
    have htake : (block'.front (address + written.length)).take address =
        block'.cells.take address := by
      rw [Block.front, List.take_take, Nat.min_eq_left (Nat.le_add_right ..)]
    rw [← htake, hwrites.front]
    exact List.take_left' hfront
  simp only [Block.front, hwritten, List.length_reverse]
  rw [hbefore]
  apply List.take_left'
  rw [List.length_append, hfront, List.length_reverse]

end Writes

end Block

end Cuber.Memory
