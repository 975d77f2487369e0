import Mathlib.Data.List.Perm.Basic
import Mathlib.Data.List.Sort
import Mathlib.Tactic.Common

/-! # Reorderings

Two lists whose elements correspond, one to one, but stand in different orders. What is computed
from such lists by an operation that does not look at the order is the same for both.

* **`Reordered R l l'`** is that relation, for a relation `R` of the elements.
* **`Reordered.of_forall₂`**: changing the elements in place keeps it.
* **`mergeSort_eq_of_perm`**: sorting by a key that tells the elements apart forgets the order. -/

namespace Reorderings

variable {α β γ δ : Type}

/-- The elements of the lists correspond one to one. -/
def Reordered (R : α → β → Prop) (l : List α) (l' : List β) : Prop :=
  ∃ u, l.Perm u ∧ List.Forall₂ R u l'

section

variable {R : α → β → Prop} {l : List α} {l' : List β}

/-- The first element of one list has its counterpart somewhere in the other. -/
theorem Reordered.exists_of_mem (h : Reordered R l l') {a : α} (ha : a ∈ l) : ∃ b ∈ l', R a b := by
  obtain ⟨u, hperm, hall⟩ := h
  obtain ⟨i, hi, rfl⟩ := List.mem_iff_getElem.mp (hperm.mem_iff.mp ha)
  have hi' : i < l'.length := hall.length_eq ▸ hi
  exact ⟨l'[i], List.getElem_mem hi', hall.get hi hi'⟩

theorem Reordered.symm (h : Reordered R l l') : Reordered (fun b a => R a b) l' l := by
  obtain ⟨u, hperm, hall⟩ := h
  obtain ⟨v, hall', hperm'⟩ := List.perm_comp_forall₂ hperm hall
  exact ⟨v, hperm'.symm, hall'.flip⟩

theorem Reordered.length_eq (h : Reordered R l l') : l.length = l'.length := by
  obtain ⟨u, hperm, hall⟩ := h
  rw [hperm.length_eq, hall.length_eq]

/-- **Changing the elements in place** keeps the correspondence. -/
theorem Reordered.of_forall₂ {S : γ → α → Prop} {T : β → δ → Prop} {Q : γ → δ → Prop} {k : List γ}
    {k' : List δ} (hleft : List.Forall₂ S k l) (h : Reordered R l l')
    (hright : List.Forall₂ T l' k') (hrel : ∀ c a b d, S c a → R a b → T b d → Q c d) :
    Reordered Q k k' := by
  obtain ⟨u, hperm, hall⟩ := h
  -- the order is changed first, and the elements behind it
  have hcomp : Relation.Comp List.Perm (List.Forall₂ S) k u := by
    rw [← List.forall₂_comp_perm_eq_perm_comp_forall₂]
    exact ⟨l, hleft, hperm⟩
  obtain ⟨v, hperm', hleft'⟩ := hcomp
  refine ⟨v, hperm', ?_⟩
  clear hperm hperm' hleft
  induction hleft' generalizing l' k' with
  | nil =>
    cases hall
    cases hright
    exact .nil
  | cons hs _ ih =>
    cases hall with
    | cons hr hall =>
      cases hright with
      | cons ht hright => exact .cons (hrel _ _ _ _ hs hr ht) (ih hright hall)

/-- What corresponding elements have in common, the lists have in common but for the order. -/
theorem Reordered.map_perm {f : α → γ} {g : β → γ} (h : Reordered R l l')
    (heq : ∀ a b, R a b → f a = g b) : (l.map f).Perm (l'.map g) := by
  obtain ⟨u, hperm, hall⟩ := h
  have hmap : u.map f = l'.map g := by
    clear hperm
    induction hall with
    | nil => rfl
    | cons hr _ ih => rw [List.map_cons, List.map_cons, heq _ _ hr, ih]
  exact hmap ▸ hperm.map f

theorem Reordered.flatMap_perm {f : α → List γ} {g : β → List γ} (h : Reordered R l l')
    (heq : ∀ a b, R a b → f a = g b) : (l.flatMap f).Perm (l'.flatMap g) := by
  rw [List.flatMap_def, List.flatMap_def]
  exact (h.map_perm heq).flatten

/-- A filter that does not tell corresponding elements apart. -/
theorem Reordered.filter {p : α → Bool} {q : β → Bool} (h : Reordered R l l')
    (heq : ∀ a b, R a b → p a = q b) : Reordered R (l.filter p) (l'.filter q) := by
  obtain ⟨u, hperm, hall⟩ := h
  refine ⟨u.filter p, hperm.filter p, ?_⟩
  exact List.rel_filter (fun a b hr => by simp only [heq a b hr]) hall

/-- Where the lists have one element, it is the same up to the relation. -/
theorem Reordered.of_singleton {a : α} (h : Reordered R [a] l') : ∃ b, l' = [b] ∧ R a b := by
  obtain ⟨u, hperm, hall⟩ := h
  obtain rfl := List.singleton_perm.mp hperm
  cases hall with
  | cons hr hnil =>
    cases hnil
    exact ⟨_, rfl, hr⟩

theorem Reordered.of_nil (h : Reordered R [] l') : l' = [] := by
  obtain ⟨u, hperm, hall⟩ := h
  obtain rfl := List.nil_perm.mp hperm
  cases hall
  rfl

end

/-- Lists in different orders, with their elements replaced by related ones. -/
theorem Reordered.map {R : α → β → Prop} {f : γ → α} {g : γ → β} {l l' : List γ}
    (hperm : l.Perm l') (h : ∀ c ∈ l', R (f c) (g c)) : Reordered R (l.map f) (l'.map g) := by
  refine ⟨l'.map f, hperm.map f, ?_⟩
  rw [List.forall₂_map_left_iff, List.forall₂_map_right_iff, List.forall₂_same]
  exact h

/-- A list of at most one element has one order. -/
theorem eq_of_perm_of_length_le_one {l l' : List α} (h : l.Perm l')
    (hone : l.length ≤ 1) : l = l' := by
  cases l with
  | nil => exact (List.nil_perm.mp h).symm
  | cons a l =>
    have hnil : l = [] := List.length_eq_zero_iff.mp (by rw [List.length_cons] at hone; omega)
    subst hnil
    exact List.singleton_perm.mp h

/-- **Sorting by a key** that tells the elements apart forgets the order. -/
theorem mergeSort_eq_of_perm (key : α → ℕ) {l l' : List α} (hperm : l.Perm l')
    (hdistinct : (l.map key).Nodup) :
    l.mergeSort (fun a b => decide (key a ≤ key b)) =
      l'.mergeSort fun a b => decide (key a ≤ key b) := by
  have htrans : ∀ a b c : α, decide (key a ≤ key b) = true → decide (key b ≤ key c) = true →
      decide (key a ≤ key c) = true := by
    intro a b c hab hbc
    simp only [decide_eq_true_eq] at hab hbc ⊢
    exact hab.trans hbc
  have htotal : ∀ a b : α, (decide (key a ≤ key b) || decide (key b ≤ key a)) = true := by
    intro a b
    simp only [Bool.or_eq_true, decide_eq_true_eq]
    exact Nat.le_total _ _
  refine List.Perm.eq_of_pairwise (fun a b ha hb hab hba => ?_)
    (List.pairwise_mergeSort htrans htotal l) (List.pairwise_mergeSort htrans htotal l')
    (((List.mergeSort_perm l _).trans hperm).trans (List.mergeSort_perm l' _).symm)
  -- two elements of which neither comes first have one key, and so are one
  have hkeys : key a = key b :=
    Nat.le_antisymm (of_decide_eq_true hab) (of_decide_eq_true hba)
  exact List.inj_on_of_nodup_map hdistinct (List.mem_mergeSort.mp ha)
    (hperm.mem_iff.mpr (List.mem_mergeSort.mp hb)) hkeys

end Reorderings
