import Mathlib.Data.List.Basic

/-! # A register that is set and used in order

A sequence of accesses sets a register to values and makes uses of it, each with a demand.

* **`uses`** pairs each use with the value it finds; what the first ones find was there before.
* **`front`** and **`own`** split the uses at the first value that is set: those in front of it find
  what was there before, and what those behind it find depends on the sequence alone
  (**`uses_eq`**). -/

namespace Registers

variable {β μ : Type}

/-- An access of the register. -/
inductive Access (β μ : Type)
  | set (value : β)
  | use (demand : μ)
  deriving DecidableEq, Repr

/-- The value set last, if any is set. -/
def lastSet : List (Access β μ) → Option β
  | [] => none
  | .set value :: rest => some ((lastSet rest).getD value)
  | .use _ :: rest => lastSet rest

/-- The value behind the accesses. -/
def last (base : β) (accesses : List (Access β μ)) : β := (lastSet accesses).getD base

/-- Each use with the value it finds. -/
def uses (base : β) : List (Access β μ) → List (β × μ)
  | [] => []
  | .set value :: rest => uses value rest
  | .use demand :: rest => (base, demand) :: uses base rest

/-- The uses in front of the first value that is set. -/
def front : List (Access β μ) → List μ
  | [] => []
  | .set _ :: _ => []
  | .use demand :: rest => demand :: front rest

/-- The uses behind the first value that is set, each with the value it finds. -/
def own : List (Access β μ) → List (β × μ)
  | [] => []
  | .set value :: rest => uses value rest
  | .use _ :: rest => own rest

section Values

variable (base value : β) (demand : μ) (rest : List (Access β μ))

@[simp] theorem last_nil : last base ([] : List (Access β μ)) = base := rfl

@[simp] theorem last_set : last base (.set value :: rest) = last value rest := rfl

@[simp] theorem last_use : last base (.use demand :: rest) = last base rest := rfl

@[simp] theorem uses_nil : uses base ([] : List (Access β μ)) = [] := rfl

@[simp] theorem uses_set : uses base (.set value :: rest) = uses value rest := rfl

@[simp] theorem uses_use :
    uses base (.use demand :: rest) = (base, demand) :: uses base rest := rfl

end Values

variable (base : β) (accesses more : List (Access β μ))

theorem lastSet_append : lastSet (accesses ++ more) =
    (lastSet more).or (lastSet accesses) := by
  induction accesses with
  | nil => rw [List.nil_append, lastSet, Option.or_none]
  | cons access rest ih =>
    cases access with
    | set value =>
      rw [List.cons_append, lastSet, lastSet, ih]
      cases lastSet more with
      | none => rw [Option.none_or, Option.none_or]
      | some value' => rw [Option.some_or, Option.some_or, Option.getD_some]
    | use demand => exact ih

/-- The uses of the second find what the first leaves. -/
theorem uses_append :
    uses base (accesses ++ more) = uses base accesses ++ uses (last base accesses) more := by
  induction accesses generalizing base with
  | nil => rfl
  | cons access rest ih =>
    cases access with
    | set value => exact ih value
    | use demand => rw [List.cons_append, uses_use, ih, uses_use, last_use, List.cons_append]

/-- **The uses split at the first value that is set.** -/
theorem uses_eq :
    uses base accesses = (front accesses).map (fun demand => (base, demand)) ++ own accesses := by
  induction accesses with
  | nil => rfl
  | cons access rest ih =>
    cases access with
    | set value => rfl
    | use demand => rw [uses_use, ih, front, own, List.map_cons, List.cons_append]

/-! ## One more access -/

section Concat

variable {accesses}

theorem own_append : own (accesses ++ more) =
    own accesses ++ (lastSet accesses).elim (own more) (fun value => uses value more) := by
  induction accesses with
  | nil => rfl
  | cons access rest ih =>
    cases access with
    | set value => exact uses_append value rest more
    | use demand => exact ih

/-- Setting a value makes no use of it. -/
theorem own_concat_set (value : β) : own (accesses ++ [.set value]) = own accesses := by
  rw [own_append]
  cases lastSet accesses with
  | none => exact List.append_nil _
  | some _ => exact List.append_nil _

theorem lastSet_concat_set (value : β) : lastSet (accesses ++ [.set value]) = some value := by
  rw [lastSet_append]
  rfl

theorem lastSet_concat_use (demand : μ) :
    lastSet (accesses ++ [.use demand]) = lastSet accesses := by
  rw [lastSet_append]
  exact Option.none_or

/-- One more use finds the value set last, if any is set. -/
theorem mem_own_concat_use {demand : μ} {x : β × μ} (h : x ∈ own (accesses ++ [.use demand])) :
    x ∈ own accesses ∨ lastSet accesses = some x.1 ∧ x.2 = demand := by
  rw [own_append, List.mem_append] at h
  refine h.imp_right fun hx => ?_
  cases hlast : lastSet accesses with
  | none =>
    rw [hlast] at hx
    cases hx
  | some value =>
    rw [hlast] at hx
    obtain rfl := List.mem_singleton.mp hx
    exact ⟨rfl, rfl⟩

end Concat

end Registers
