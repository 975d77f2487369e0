import Mathlib.Data.List.Basic
import Mathlib.Order.Basic
import Mathlib.Tactic.Common

/-! # Patches

A patch replaces a block of a list from an index on. This file is about applying many of them, one
after the other.

* **`Patch.holds_of_applyAll`**: patches that do not overlap are all there in the end.
* **`Patch.getElem?_applyAll`**: what no patch covers is as before. -/

variable {α : Type}

/-- A block, and the index it is to be put at. -/
structure Patch (α : Type) where
  start : ℕ
  block : List α

namespace Patch

/-- The index behind the block. -/
def stop (p : Patch α) : ℕ := p.start + p.block.length

/-- The patch replaces the element at this index. -/
def Covers (p : Patch α) (k : ℕ) : Prop := p.start ≤ k ∧ k < p.stop

/-- The patches replace no element in common. -/
def Apart (p q : Patch α) : Prop := ∀ k, p.Covers k → ¬ q.Covers k

/-- The block is in the list where the patch says. -/
def HoldsIn (p : Patch α) (l : List α) : Prop := ∀ k < p.block.length, l[p.start + k]? = p.block[k]?

/-- Put the block in its place. -/
def apply (l : List α) (p : Patch α) : List α := l.take p.start ++ p.block ++ l.drop p.stop

/-- Put all blocks in their places, in order. -/
def applyAll (l : List α) (patches : List (Patch α)) : List α := patches.foldl apply l

@[simp] theorem applyAll_nil (l : List α) : applyAll l [] = l := rfl

@[simp] theorem applyAll_cons (l : List α) (p : Patch α) (patches : List (Patch α)) :
    applyAll l (p :: patches) = applyAll (p.apply l) patches := rfl

variable {l : List α} {p : Patch α} {patches : List (Patch α)}

theorem length_take_start (h : p.stop ≤ l.length) : (l.take p.start).length = p.start := by
  rw [List.length_take]
  exact Nat.min_eq_left (Nat.le_trans (Nat.le_add_right _ _) h)

theorem length_apply (h : p.stop ≤ l.length) : (p.apply l).length = l.length := by
  rw [apply, List.length_append, List.length_append, length_take_start h, List.length_drop]
  unfold stop at *
  omega

/-- A patch that fits is there once it is applied. -/
theorem holdsIn_apply (h : p.stop ≤ l.length) : p.HoldsIn (p.apply l) := by
  intro k hk
  have hstart := length_take_start h
  rw [apply, List.append_assoc, List.getElem?_append_right (by omega), hstart,
    Nat.add_sub_cancel_left, List.getElem?_append_left hk]

/-- A patch that fits changes what it covers only. -/
theorem getElem?_apply (h : p.stop ≤ l.length) {k : ℕ} (hk : ¬ p.Covers k) :
    (p.apply l)[k]? = l[k]? := by
  have hstart := length_take_start h
  unfold Covers at hk
  rw [apply, List.append_assoc]
  rcases Nat.lt_or_ge k p.start with hlt | hge
  · rw [List.getElem?_append_left (by omega), List.getElem?_take_of_lt hlt]
  · -- behind the block the list goes on where it would have been
    have hstop : p.stop ≤ k := by omega
    have hlen : p.start + p.block.length = p.stop := rfl
    rw [List.getElem?_append_right (by omega), hstart, List.getElem?_append_right (by omega),
      List.getElem?_drop]
    congr 1
    omega

theorem length_applyAll (h : ∀ p ∈ patches, p.stop ≤ l.length) :
    (applyAll l patches).length = l.length := by
  induction patches generalizing l with
  | nil => rfl
  | cons p patches ih =>
    have hp := length_apply (h p List.mem_cons_self)
    rw [applyAll_cons, ih fun q hq => hp ▸ h q (List.mem_cons_of_mem p hq), hp]

/-- **What no patch covers is as before.** -/
theorem getElem?_applyAll (h : ∀ p ∈ patches, p.stop ≤ l.length) {k : ℕ}
    (hk : ∀ p ∈ patches, ¬ p.Covers k) : (applyAll l patches)[k]? = l[k]? := by
  induction patches generalizing l with
  | nil => rfl
  | cons p patches ih =>
    have hfit := h p List.mem_cons_self
    have hlength := length_apply hfit
    -- the first patch keeps the length, so that the others still fit
    rw [applyAll_cons, ih (fun q hq => hlength ▸ h q (List.mem_cons_of_mem p hq))
      (fun q hq => hk q (List.mem_cons_of_mem p hq))]
    exact getElem?_apply hfit (hk p List.mem_cons_self)

/-- **Patches that do not overlap are all there in the end.** -/
theorem holds_of_applyAll (h : ∀ p ∈ patches, p.stop ≤ l.length) (hapart : patches.Pairwise Apart)
    (hp : p ∈ patches) : p.HoldsIn (applyAll l patches) := by
  induction patches generalizing l with
  | nil => cases hp
  | cons q patches ih =>
    have hfit := h q List.mem_cons_self
    have hlength := length_apply hfit
    have hrest : ∀ r ∈ patches, r.stop ≤ (q.apply l).length := fun r hr =>
      hlength ▸ h r (List.mem_cons_of_mem q hr)
    rw [applyAll_cons]
    rcases List.mem_cons.mp hp with rfl | hp
    · -- the others leave the block of the first one alone
      intro k hk
      have hcovers : p.Covers (p.start + k) := ⟨Nat.le_add_right _ _, Nat.add_lt_add_left hk _⟩
      rw [getElem?_applyAll hrest fun r hr => List.rel_of_pairwise_cons hapart hr _ hcovers]
      exact holdsIn_apply hfit k hk
    · exact ih hrest hapart.of_cons hp

/-- Patches that are both in a list, at one place and of one length, are the same. -/
theorem eq_of_holdsIn {q : Patch α} (hp : p.HoldsIn l)
    (hq : q.HoldsIn l) (hstart : p.start = q.start) (hlength : p.block.length = q.block.length) :
    p = q := by
  obtain ⟨start, block⟩ := p
  obtain ⟨start', block'⟩ := q
  obtain rfl : start = start' := hstart
  have hblock : block = block' := by
    refine List.ext_getElem hlength fun k hk hk' => ?_
    have heq := (hp k hk).symm.trans (hq k hk')
    rw [List.getElem?_eq_getElem hk, List.getElem?_eq_getElem hk'] at heq
    exact Option.some.inj heq
  rw [hblock]

end Patch
