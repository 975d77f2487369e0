import Mathlib.Data.List.Basic
import Mathlib.Data.List.Pairwise
import Mathlib.Order.Basic

/-! # Descending intervals

Half-open intervals of a linear order, as pairs of a start and an end, listed from the greatest to
the least.

* **`scan`** looks for an interval around a point, and gives up at the first one in front of it;
  **`scan_eq_true_iff`**: on a descending list it finds every point that an interval covers.
* **`mem_eraseP_iff`**: taking out the first interval around a point takes out every one. -/

namespace Intervals

section Order

variable {α : Type} [LE α]

/-- No interval ends behind the start of one that is listed before it. -/
def Descending (l : List (α × α)) : Prop := l.Pairwise fun r earlier => earlier.2 ≤ r.1

variable {l : List (α × α)} {r : α × α}

/-- A new interval behind all others goes in front of the list. -/
theorem Descending.cons (h : Descending l) (hr : ∀ r' ∈ l, r'.2 ≤ r.1) : Descending (r :: l) :=
  List.pairwise_cons.mpr ⟨hr, h⟩

/-- What is left of a descending list is descending. -/
theorem Descending.eraseP (h : Descending l) (f : α × α → Bool) : Descending (l.eraseP f) :=
  h.sublist List.eraseP_sublist

variable [LT α]

/-- The point lies in the interval. -/
def Contains (r : α × α) (p : α) : Prop := r.1 ≤ p ∧ p < r.2

/-- Some interval contains the point. -/
def Covers (l : List (α × α)) (p : α) : Prop := ∃ r ∈ l, Contains r p

/-- A point behind the start of an interval is in none of those that end in front of it. -/
theorem not_contains_of_le [Std.IsLinearOrder α] [Std.LawfulOrderLT α] {r' : α × α} {p : α}
    (h : r'.2 ≤ r.1) (hp : r.1 ≤ p) : ¬ Contains r' p :=
  fun hr' => Std.not_le.mpr hr'.2 (Std.le_trans h hp)

end Order

section Search

variable {α : Type} [LE α] [LT α] [DecidableLE α] [DecidableLT α]

instance (r : α × α) (p : α) : Decidable (Contains r p) := inferInstanceAs (Decidable (_ ∧ _))

/-- Look for an interval around the point, up to the first one that starts in front of it. -/
def scan (p : α) : List (α × α) → Bool
  | [] => false
  | r :: rest => if Contains r p then true else if r.1 < p then false else scan p rest

variable [Std.IsLinearOrder α] [Std.LawfulOrderLT α] {l : List (α × α)} {r : α × α} {p q : α}

/-- **The search is exact**: it finds an interval around the point if there is one. -/
theorem scan_eq_true_iff (h : Descending l) : scan p l = true ↔ Covers l p := by
  induction l with
  | nil => simp [scan, Covers]
  | cons r rest ih =>
    obtain ⟨hhead, hrest⟩ := List.pairwise_cons.mp h
    rw [scan]
    by_cases hr : Contains r p
    · rw [if_pos hr]
      exact iff_of_true rfl ⟨r, List.mem_cons_self, hr⟩
    rw [if_neg hr]
    by_cases hfront : r.1 < p
    · -- every interval further on ends in front of this one, and so in front of the point
      rw [if_pos hfront]
      refine iff_of_false Bool.false_ne_true ?_
      rintro ⟨r', hmem, hr'⟩
      rcases List.mem_cons.mp hmem with rfl | hmem
      · exact hr hr'
      · exact not_contains_of_le (hhead r' hmem) (Std.le_of_lt hfront) hr'
    · rw [if_neg hfront, ih hrest]
      constructor
      · rintro ⟨r', hmem, hr'⟩
        exact ⟨r', List.mem_cons_of_mem r hmem, hr'⟩
      · rintro ⟨r', hmem, hr'⟩
        rcases List.mem_cons.mp hmem with rfl | hmem
        · exact absurd hr' hr
        · exact ⟨r', hmem, hr'⟩

/-- **One interval for each point**: without the first interval around it, there is none left. -/
theorem mem_eraseP_iff (h : Descending l) :
    r ∈ l.eraseP (fun r => decide (Contains r q)) ↔ r ∈ l ∧ ¬ Contains r q := by
  induction l with
  | nil => simp
  | cons head rest ih =>
    obtain ⟨hhead, hrest⟩ := List.pairwise_cons.mp h
    by_cases hq : Contains head q
    · rw [List.eraseP_cons_of_pos (by simpa using hq)]
      have hnone : ∀ r ∈ rest, ¬ Contains r q :=
        fun r hr => not_contains_of_le (hhead r hr) hq.1
      constructor
      · intro hr
        exact ⟨List.mem_cons_of_mem head hr, hnone r hr⟩
      · rintro ⟨hr, hnot⟩
        rcases List.mem_cons.mp hr with rfl | hr
        · exact absurd hq hnot
        · exact hr
    · rw [List.eraseP_cons_of_neg (by simpa using hq), List.mem_cons, List.mem_cons, ih hrest]
      constructor
      · rintro (rfl | ⟨hr, hnot⟩)
        · exact ⟨Or.inl rfl, hq⟩
        · exact ⟨Or.inr hr, hnot⟩
      · rintro ⟨rfl | hr, hnot⟩
        · exact Or.inl rfl
        · exact Or.inr ⟨hr, hnot⟩

end Search

end Intervals
