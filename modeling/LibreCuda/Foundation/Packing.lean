import Mathlib.Algebra.BigOperators.Ring.List
import Mathlib.Algebra.Ring.Nat

/-! # Packing

Pieces of given sizes are written one behind the other, each filled up to whole cells.

* **`source`** tells which element of which piece is at a position of the result, if any.
* **`source_eq_some_iff`**: a piece is found where those in front of it end, and nowhere else.
* **`start_eq_iff`**: for pieces that were meant for offsets with the sizes as distances, these are
  the positions if and only if they are whole cells, from zero on. -/

namespace Packing

variable {α : Type*} {cell : ℕ}

/-- The elements that a piece takes: whole cells. -/
def padded (cell size : ℕ) : ℕ := cell * ((size + (cell - 1)) / cell)

theorem le_padded (hcell : 0 < cell) (size : ℕ) : size ≤ padded cell size := by
  have hmod := Nat.mod_lt (size + (cell - 1)) hcell
  have hdiv := Nat.div_add_mod (size + (cell - 1)) cell
  rw [padded]
  omega

/-- Whole cells are not filled up. -/
theorem padded_eq_iff (hcell : 0 < cell) (size : ℕ) : padded cell size = size ↔ cell ∣ size := by
  constructor
  · intro heq
    rw [← heq]
    exact Nat.dvd_mul_right cell _
  · rintro ⟨n, rfl⟩
    rw [padded, Nat.mul_add_div hcell, Nat.div_eq_of_lt (by omega), Nat.add_zero]

/-- Where a piece begins. -/
def start (cell : ℕ) (sizes : List ℕ) (i : ℕ) : ℕ := ((sizes.take i).map (padded cell)).sum

@[simp] theorem start_zero (sizes : List ℕ) : start cell sizes 0 = 0 := rfl

@[simp] theorem start_cons_succ (size : ℕ) (sizes : List ℕ) (i : ℕ) :
    start cell (size :: sizes) (i + 1) = padded cell size + start cell sizes i := by
  rw [start, List.take_succ_cons, List.map_cons, List.sum_cons]
  rfl

/-- Behind a piece, the next one begins. -/
theorem start_succ {sizes : List ℕ} {i size : ℕ} (h : sizes[i]? = some size) :
    start cell sizes (i + 1) = start cell sizes i + padded cell size := by
  rw [start, List.take_add_one, h, List.map_append, List.sum_append]
  rfl

/-- All pieces, filled up. -/
def pack (cell : ℕ) (fill : α) : List ℕ → (ℕ → ℕ → α) → List α
  | [], _ => []
  | size :: sizes, args =>
    ((List.range (padded cell size)).map fun j => if j < size then args 0 j else fill) ++
      pack cell fill sizes fun i => args (i + 1)

@[simp] theorem length_pack (fill : α) (sizes : List ℕ) (args : ℕ → ℕ → α) :
    (pack cell fill sizes args).length = (sizes.map (padded cell)).sum := by
  induction sizes generalizing args with
  | nil => rfl
  | cons size sizes ih =>
    rw [pack, List.length_append, List.length_map, List.length_range, ih, List.map_cons,
      List.sum_cons]

/-- The piece and the element of it that are at a position. -/
def source (cell : ℕ) : List ℕ → ℕ → Option (ℕ × ℕ)
  | [], _ => none
  | size :: sizes, y =>
    if y < padded cell size then if y < size then some (0, y) else none
    else (source cell sizes (y - padded cell size)).map fun s => (s.1 + 1, s.2)

/-- **What is at a position** of the result. -/
theorem getElem?_pack (fill : α) (sizes : List ℕ) (args : ℕ → ℕ → α) {y : ℕ}
    (h : y < (pack cell fill sizes args).length) :
    (pack cell fill sizes args)[y]? =
      some ((source cell sizes y).elim fill fun s => args s.1 s.2) := by
  induction sizes generalizing args y with
  | nil => exact absurd h (Nat.not_lt_zero y)
  | cons size sizes ih =>
    have hfront : ((List.range (padded cell size)).map fun j =>
        if j < size then args 0 j else fill).length = padded cell size := by
      rw [List.length_map, List.length_range]
    rw [pack, List.length_append, hfront] at h
    rw [pack, source]
    by_cases hlt : y < padded cell size
    · rw [if_pos hlt, List.getElem?_append_left (by rw [hfront]; exact hlt), List.getElem?_map,
        List.getElem?_range hlt, Option.map_some]
      split_ifs
      · rfl
      · rfl
    · rw [if_neg hlt, List.getElem?_append_right (by rw [hfront]; exact Nat.not_lt.mp hlt), hfront,
        ih (fun i => args (i + 1)) (by omega)]
      cases source cell sizes (y - padded cell size) with
      | none => rfl
      | some s => rfl

/-- **A piece is where those in front of it end.** -/
theorem source_eq_some_iff (hcell : 0 < cell) {sizes : List ℕ} {y i j : ℕ} :
    source cell sizes y = some (i, j) ↔
      ∃ size, sizes[i]? = some size ∧ j < size ∧ y = start cell sizes i + j := by
  induction sizes generalizing y i with
  | nil => simp [source]
  | cons size sizes ih =>
    have hle := le_padded hcell size
    rw [source]
    cases i with
    | zero =>
      rw [List.getElem?_cons_zero, start_zero, Nat.zero_add]
      constructor
      · intro hsource
        split_ifs at hsource with _ hlt
        · cases hsource
          exact ⟨size, rfl, hlt, rfl⟩
        · obtain ⟨s, -, hs⟩ := Option.map_eq_some_iff.mp hsource
          cases hs
      · rintro ⟨_, hsize, hlt, rfl⟩
        cases hsize
        rw [if_pos (by omega), if_pos hlt]
    | succ i =>
      rw [List.getElem?_cons_succ, start_cons_succ]
      constructor
      · intro hsource
        split_ifs at hsource with hpadded
        · cases hsource
        · obtain ⟨⟨k, l⟩, hs, hkl⟩ := Option.map_eq_some_iff.mp hsource
          obtain ⟨hk, rfl⟩ := Prod.mk.inj hkl
          obtain rfl : k = i := Nat.succ.inj hk
          obtain ⟨size', hsize', hlt, hy⟩ := ih.mp hs
          exact ⟨size', hsize', hlt, by omega⟩
      · rintro ⟨size', hsize', hlt, rfl⟩
        rw [if_neg (by omega), ih.mpr ⟨size', hsize', hlt, by omega⟩]
        rfl

/-- Every piece is inside the result. -/
theorem lt_of_source {sizes : List ℕ} {y : ℕ} {s : ℕ × ℕ} (h : source cell sizes y = some s) :
    y < (sizes.map (padded cell)).sum := by
  induction sizes generalizing y s with
  | nil => cases h
  | cons size sizes ih =>
    rw [List.map_cons, List.sum_cons]
    rw [source] at h
    split_ifs at h
    · omega
    · obtain ⟨s', hs', -⟩ := Option.map_eq_some_iff.mp h
      have hrest := ih hs'
      omega

/-- **Pieces are at the offsets that they are meant for, if and only if** these are whole cells and
the first one is zero. -/
theorem start_eq_iff (hcell : 0 < cell) {sizes : List ℕ} {offset : ℕ → ℕ}
    (hoffset : ∀ i size, i + 1 < sizes.length → sizes[i]? = some size →
      offset i + size = offset (i + 1)) :
    (∀ i < sizes.length, start cell sizes i = offset i) ↔
      (0 < sizes.length → offset 0 = 0) ∧ ∀ i < sizes.length, cell ∣ offset i := by
  constructor
  · intro hstart
    refine ⟨fun hpos => (hstart 0 hpos).symm, fun i hi => ?_⟩
    rw [← hstart i hi, start]
    refine List.dvd_sum fun n hn => ?_
    obtain ⟨size, -, rfl⟩ := List.mem_map.mp hn
    exact Nat.dvd_mul_right cell _
  · rintro ⟨hzero, hdvd⟩ i hi
    induction i with
    | zero => exact (hzero hi).symm
    | succ i ih =>
      have hsize := List.getElem?_eq_getElem (show i < sizes.length by omega)
      have hnext := hoffset i _ hi hsize
      have hcells : cell ∣ sizes[i] := by
        rw [Nat.dvd_add_iff_right (hdvd i (by omega)), hnext]
        exact hdvd (i + 1) hi
      rw [start_succ hsize, ih (by omega), (padded_eq_iff hcell _).mpr hcells, hnext]

end Packing
