import Mathlib.Data.BitVec
import Mathlib.Data.List.Basic

/-! # Bit fields of an array of words

A field is a run of bits inside one word. Writing it is a read-modify-write of that word.

* **`getLsbD_set`**: a write gives the bits of the field and leaves every other bit alone.
* **`toNat_get`**, **`toNat_set`**: reading and writing in terms of numbers.
* **`get_set`**, **`get_set_of_apart`**: what reading a field gives behind one write.
* **`get_writeAll`**: behind any number of writes, a field reads back what was written to it last.
* **`getLsbD_writeAll`**: a bit of no field that was written is as it was. -/

namespace Fields

/-- Some bits of one word. -/
structure Field where
  word : ℕ
  shift : ℕ
  width : ℕ
  deriving DecidableEq

/-- A small number has no high bits. -/
theorem getLsbD_eq_false {w : ℕ} {x : BitVec w} {k j : ℕ} (hx : x.toNat < 2 ^ k) (hj : k ≤ j) :
    x.getLsbD j = false := by
  rw [← BitVec.testBit_toNat]
  exact Nat.testBit_lt_two_pow (hx.trans_le (Nat.pow_le_pow_right (by decide) hj))

namespace Field

variable {w : ℕ} (f g : Field)

/-- The bits are within a word. -/
def Fits (w : ℕ) : Prop := f.shift + f.width ≤ w

/-- The bit of the word is one of the field. -/
def Covers (k j : ℕ) : Prop := k = f.word ∧ f.shift ≤ j ∧ j < f.shift + f.width

/-- The fields share no bit. -/
def Apart : Prop :=
  f.word ≠ g.word ∨ f.shift + f.width ≤ g.shift ∨ g.shift + g.width ≤ f.shift

instance (w : ℕ) : Decidable (f.Fits w) := inferInstanceAs (Decidable (_ ≤ _))

instance (k j : ℕ) : Decidable (f.Covers k j) := inferInstanceAs (Decidable (_ ∧ _))

instance : Decidable (f.Apart g) := inferInstanceAs (Decidable (_ ∨ _))

/-- As many ones as the field has bits. -/
def mask (w : ℕ) : BitVec w := BitVec.ofNat w (2 ^ f.width - 1)

/-- Read the field. -/
def get (q : ℕ → BitVec w) : BitVec w := (q f.word >>> f.shift) &&& f.mask w

/-- Write the field. -/
def set (v : BitVec w) (q : ℕ → BitVec w) : ℕ → BitVec w :=
  Function.update q f.word
    ((q f.word &&& ~~~(f.mask w <<< f.shift)) ||| ((v &&& f.mask w) <<< f.shift))

variable {f g}

theorem getLsbD_mask (i : ℕ) : (f.mask w).getLsbD i = (decide (i < w) && decide (i < f.width)) := by
  rw [mask, BitVec.getLsbD_ofNat, Nat.testBit_two_pow_sub_one]

/-- **The bits behind a write.** -/
theorem getLsbD_set (hf : f.Fits w) (v : BitVec w) (q : ℕ → BitVec w) (k j : ℕ) :
    (f.set v q k).getLsbD j = if f.Covers k j then v.getLsbD (j - f.shift) else (q k).getLsbD j := by
  unfold Fits at hf
  by_cases hk : k = f.word
  · subst hk
    rw [set, Function.update_self]
    simp only [BitVec.getLsbD_or, BitVec.getLsbD_and, BitVec.getLsbD_not, BitVec.getLsbD_shiftLeft,
      getLsbD_mask]
    split_ifs with hcovers
    · obtain ⟨-, hle, hlt⟩ := hcovers
      have hj : j < w := by omega
      have hlt' : j - f.shift < f.width := by omega
      have hjw : j - f.shift < w := by omega
      have hge : ¬ j < f.shift := Nat.not_lt.mpr hle
      simp [hj, hge, hlt', hjw]
    · by_cases hj : j < w
      · by_cases hle : f.shift ≤ j
        · have hge : ¬ j - f.shift < f.width := fun h => hcovers ⟨rfl, hle, by omega⟩
          simp [hj, hge]
        · simp [hj, Nat.not_le.mp hle]
      · rw [BitVec.getLsbD_of_ge _ j (Nat.not_lt.mp hj)]
        simp [hj]
  · rw [set, Function.update_of_ne hk, if_neg fun h => hk h.1]

/-- The bits a read gives. -/
theorem getLsbD_get (q : ℕ → BitVec w) (i : ℕ) :
    (f.get q).getLsbD i = ((decide (i < w) && decide (i < f.width)) &&
      (q f.word).getLsbD (f.shift + i)) := by
  rw [get, BitVec.getLsbD_and, getLsbD_mask, BitVec.getLsbD_ushiftRight, Bool.and_comm]

/-- **A write reads back**, cut to the width of the field. -/
theorem get_set (hf : f.Fits w) (v : BitVec w) (q : ℕ → BitVec w) :
    f.get (f.set v q) = v &&& f.mask w := by
  unfold Fits at hf
  apply BitVec.eq_of_getLsbD_eq
  intro i hi
  rw [getLsbD_get, getLsbD_set hf, BitVec.getLsbD_and, getLsbD_mask]
  by_cases hlt : i < f.width
  · rw [if_pos ⟨rfl, Nat.le_add_right _ _, by omega⟩, Nat.add_sub_cancel_left, Bool.and_comm]
  · simp [hlt]

/-- The mask is a remainder. -/
theorem toNat_and_mask (hf : f.Fits w) (v : BitVec w) :
    (v &&& f.mask w).toNat = v.toNat % 2 ^ f.width := by
  have hle : 2 ^ f.width ≤ 2 ^ w := Nat.pow_le_pow_right (by decide) (by unfold Fits at hf; omega)
  have hpos : 0 < 2 ^ f.width := Nat.two_pow_pos _
  rw [mask, BitVec.toNat_and, BitVec.toNat_ofNat, Nat.mod_eq_of_lt (by omega),
    Nat.and_two_pow_sub_one_eq_mod]

/-- **A read as a number**: the word, without the bits below and above the field. -/
theorem toNat_get (hf : f.Fits w) (q : ℕ → BitVec w) :
    (f.get q).toNat = (q f.word).toNat / 2 ^ f.shift % 2 ^ f.width := by
  rw [get, toNat_and_mask hf, BitVec.toNat_ushiftRight, Nat.shiftRight_eq_div_pow]

/-- **A write as a number**: the bits above the field, the value, and the bits below. -/
theorem toNat_set (hf : f.Fits w) (v : BitVec w) (q : ℕ → BitVec w) :
    (f.set v q f.word).toNat = 2 ^ f.shift * (2 ^ f.width *
      ((q f.word).toNat / 2 ^ f.shift / 2 ^ f.width) + v.toNat % 2 ^ f.width) +
        (q f.word).toNat % 2 ^ f.shift := by
  apply Nat.eq_of_testBit_eq
  intro j
  rw [Nat.testBit_two_pow_mul_add _ (Nat.mod_lt _ (Nat.two_pow_pos _)),
    Nat.testBit_two_pow_mul_add _ (Nat.mod_lt _ (Nat.two_pow_pos _)), BitVec.testBit_toNat,
    getLsbD_set hf]
  simp only [Nat.testBit_mod_two_pow, Nat.testBit_div_two_pow, BitVec.testBit_toNat]
  by_cases hlow : j < f.shift
  · have hnot : ¬ f.Covers f.word j := fun h => absurd h.2.1 (Nat.not_le.mpr hlow)
    rw [if_neg hnot, if_pos hlow, decide_eq_true hlow, Bool.true_and]
  · by_cases hhigh : j - f.shift < f.width
    · rw [if_pos ⟨rfl, by omega, by omega⟩, if_neg hlow, if_pos hhigh, decide_eq_true hhigh,
        Bool.true_and]
    · have hnot : ¬ f.Covers f.word j := fun h => hhigh (by have := h.2.2; omega)
      have hsum : j - f.shift - f.width + f.width + f.shift = j := by omega
      rw [if_neg hnot, if_neg hlow, if_neg hhigh, hsum]

/-- Writing a field leaves those that share no bit with it alone. -/
theorem get_set_of_apart (hg : g.Fits w) (h : f.Apart g) (v : BitVec w) (q : ℕ → BitVec w) :
    f.get (g.set v q) = f.get q := by
  apply BitVec.eq_of_getLsbD_eq
  intro i hi
  rw [getLsbD_get, getLsbD_get, getLsbD_set hg]
  by_cases hlt : i < f.width
  · rw [if_neg]
    rintro ⟨hword, hle, hlt'⟩
    rcases h with h | h | h
    · exact h hword
    · omega
    · omega
  · simp [hlt]

end Field

/-! ## Sequences of writes -/

section Writes

variable {w : ℕ}

/-- Write some fields, one after another. -/
def writeAll (writes : List (Field × BitVec w)) (q : ℕ → BitVec w) : ℕ → BitVec w :=
  writes.foldl (fun q x => x.1.set x.2 q) q

variable {f : Field} {writes : List (Field × BitVec w)}

/-- Writes of fields that are apart from one leave it alone. -/
theorem get_writeAll_of_apart (hfits : ∀ x ∈ writes, x.1.Fits w)
    (hapart : ∀ x ∈ writes, f.Apart x.1) (q : ℕ → BitVec w) :
    f.get (writeAll writes q) = f.get q := by
  induction writes generalizing q with
  | nil => rfl
  | cons x writes ih =>
    obtain ⟨hx, hfits⟩ := List.forall_mem_cons.mp hfits
    obtain ⟨hx', hapart⟩ := List.forall_mem_cons.mp hapart
    rw [writeAll, List.foldl_cons]
    exact (ih hfits hapart _).trans (Field.get_set_of_apart hx hx' _ _)

/-- **The last write of a field reads back**, if what is written behind it is apart from it. -/
theorem get_writeAll {before after : List (Field × BitVec w)} {v : BitVec w} (hf : f.Fits w)
    (hwrites : writes = before ++ (f, v) :: after) (hfits : ∀ x ∈ after, x.1.Fits w)
    (hapart : ∀ x ∈ after, f.Apart x.1) (q : ℕ → BitVec w) :
    f.get (writeAll writes q) = v &&& f.mask w := by
  rw [hwrites, writeAll, List.foldl_append, List.foldl_cons]
  exact (get_writeAll_of_apart hfits hapart _).trans (Field.get_set hf v _)

/-- **A bit of no field that was written** is as it was. -/
theorem getLsbD_writeAll (hfits : ∀ x ∈ writes, x.1.Fits w) {k j : ℕ}
    (hcovers : ∀ x ∈ writes, ¬ x.1.Covers k j) (q : ℕ → BitVec w) :
    (writeAll writes q k).getLsbD j = (q k).getLsbD j := by
  induction writes generalizing q with
  | nil => rfl
  | cons x writes ih =>
    obtain ⟨hx, hfits⟩ := List.forall_mem_cons.mp hfits
    obtain ⟨hx', hcovers⟩ := List.forall_mem_cons.mp hcovers
    rw [writeAll, List.foldl_cons]
    refine (ih hfits hcovers _).trans ?_
    rw [Field.getLsbD_set hx, if_neg hx']

end Writes

end Fields
