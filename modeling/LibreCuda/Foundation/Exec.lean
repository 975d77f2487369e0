import Mathlib.Order.Defs.Unbundled

/-! # Stateful fallible programs

`Exec σ ε α` is the type of programs over a state `σ` that return a value of `α` or stop with a
failure of `ε`. The state a failing program leaves behind is kept, so a statement about an error
exit can speak of the effects made before it. This file gives

* **`Exec.call`**, the run of a program from a state, with one equation per construct;
* **inversion**: what a sequential composition that succeeded did in its two parts;
* **`Exec.wp`**, what has to hold in front of a program for its outcome to satisfy one condition
  when it succeeds and another when it fails. -/

/-- Programs over `σ` that return an `α` or fail with an `ε`, keeping the state either way. -/
abbrev Exec (σ ε α : Type) : Type := ExceptT ε (StateM σ) α

namespace Exec

variable {σ ε α β : Type}

/-- Run a program from a state: its outcome and the state it leaves. -/
def call (x : Exec σ ε α) (s : σ) : Except ε α × σ := x.run s

/-- Go on only when the condition holds, and fail with `e` otherwise. -/
def require (c : Bool) (e : ε) : Exec σ ε Unit := if c then pure () else throw e

/-- Run a program only when the condition holds. -/
def onlyIf (c : Bool) (x : Exec σ ε Unit) : Exec σ ε Unit := if c then x else pure ()

/-- The outcome of a computation that uses no state. -/
def ofExcept : Except ε α → Exec σ ε α
  | .ok a => pure a
  | .error e => throw e

/-- Run a program on a part of the state: `view` reads the part, `put` writes it back. -/
def zoom {τ : Type} (view : σ → τ) (put : τ → σ → σ) (x : Exec τ ε α) : Exec σ ε α :=
  ExceptT.mk fun s => ((x (view s)).1, put (x (view s)).2 s)

/-! ## Equations of `call` -/

@[simp] theorem call_pure (a : α) (s : σ) : call (pure a : Exec σ ε α) s = (.ok a, s) := rfl

@[simp] theorem call_throw (e : ε) (s : σ) : call (throw e : Exec σ ε α) s = (.error e, s) := rfl

@[simp] theorem call_get (s : σ) : call (get : Exec σ ε σ) s = (.ok s, s) := rfl

@[simp] theorem call_set (t s : σ) : call (set t : Exec σ ε PUnit) s = (.ok ⟨⟩, t) := rfl

@[simp] theorem call_modify (f : σ → σ) (s : σ) :
    call (modify f : Exec σ ε PUnit) s = (.ok ⟨⟩, f s) := rfl

/-- Sequential composition: a failure of the first part ends the run in the state it left. -/
theorem call_bind (x : Exec σ ε α) (f : α → Exec σ ε β) (s : σ) :
    call (x >>= f) s = match call x s with
      | (.ok a, t) => call (f a) t
      | (.error e, t) => (.error e, t) := by
  have hrun : call (x >>= f) s = ExceptT.bindCont f (call x s).1 (call x s).2 := rfl
  rw [hrun]
  rcases call x s with ⟨e | a, t⟩
  · rfl
  · rfl

@[simp] theorem call_require_true (e : ε) (s : σ) :
    call (require true e : Exec σ ε Unit) s = (.ok (), s) := rfl

@[simp] theorem call_require_false (e : ε) (s : σ) :
    call (require false e : Exec σ ε Unit) s = (.error e, s) := rfl

@[simp] theorem call_onlyIf (c : Bool) (x : Exec σ ε Unit) (s : σ) :
    call (onlyIf c x) s = if c then call x s else (.ok (), s) := by
  cases c <;> rfl

/-- A first part that succeeds hands its value and state on. -/
theorem call_bind_ok {x : Exec σ ε α} {s t : σ} {a : α} (h : call x s = (.ok a, t))
    (f : α → Exec σ ε β) : call (x >>= f) s = call (f a) t := by
  rw [call_bind, h]

/-- A computation that uses no state and succeeds hands its value on. -/
theorem call_ofExcept_ok {r : Except ε α} {a : α} (h : r = .ok a) (s : σ) :
    call (ofExcept r : Exec σ ε α) s = (.ok a, s) := by
  rw [h]
  rfl

/-- A handler goes on from the state that the failing program left. -/
theorem call_tryCatch (x : Exec σ ε α) (f : ε → Exec σ ε α) (s : σ) :
    call (tryCatch x f) s = match call x s with
      | (.ok a, t) => (.ok a, t)
      | (.error e, t) => call (f e) t := by
  have hrun : call (tryCatch x f) s = (match (call x s).1 with
      | .ok a => (pure (.ok a) : StateM σ (Except ε α))
      | .error e => f e) (call x s).2 := rfl
  rw [hrun]
  rcases call x s with ⟨e | a, t⟩
  · rfl
  · rfl

/-- A first part that fails ends the run. -/
theorem call_bind_error {x : Exec σ ε α} {s t : σ} {e : ε} (h : call x s = (.error e, t))
    (f : α → Exec σ ε β) : call (x >>= f) s = (.error e, t) := by
  rw [call_bind, h]

/-- Compositions that go on alike behind a first part that succeeds run alike. -/
theorem call_bind_congr {x : Exec σ ε α} {f g : α → Exec σ ε β} {s : σ}
    (h : ∀ a t, call x s = (.ok a, t) → call (f a) t = call (g a) t) :
    call (x >>= f) s = call (x >>= g) s := by
  rw [call_bind, call_bind]
  rcases hx : call x s with ⟨e | a, t⟩
  · rfl
  · exact h a t hx

/-- A program on a part of the state leaves the rest alone. -/
theorem call_zoom {τ : Type} (view : σ → τ) (put : τ → σ → σ) (x : Exec τ ε α) (s : σ) :
    call (zoom view put x) s = ((call x (view s)).1, put (call x (view s)).2 s) := rfl

/-! ## Inversion -/

/-- A composition that succeeded succeeded in both parts. -/
theorem bind_eq_ok {x : Exec σ ε α} {f : α → Exec σ ε β} {s u : σ} {b : β}
    (h : call (x >>= f) s = (.ok b, u)) :
    ∃ a t, call x s = (.ok a, t) ∧ call (f a) t = (.ok b, u) := by
  rw [call_bind] at h
  rcases hx : call x s with ⟨_ | a, t⟩
  · simp [hx] at h
  · rw [hx] at h
    exact ⟨a, t, rfl, h⟩

/-- A check that was passed held, and changed nothing. -/
theorem require_eq_ok {c : Bool} {e : ε} {s t : σ} {u : Unit}
    (h : call (require c e) s = (.ok u, t)) : c = true ∧ t = s := by
  cases c with
  | true => exact ⟨rfl, (Prod.ext_iff.mp h).2.symm⟩
  | false => simp [require] at h

/-- A composition that starts with a check succeeds only if the check holds. -/
theorem require_bind_eq_ok {c : Bool} {e : ε} {f : Unit → Exec σ ε β} {s u : σ} {b : β}
    (h : call (require c e >>= f) s = (.ok b, u)) : c = true ∧ call (f ()) s = (.ok b, u) := by
  obtain ⟨a, t, hx, hf⟩ := bind_eq_ok h
  obtain ⟨hc, rfl⟩ := require_eq_ok hx
  exact ⟨hc, hf⟩

/-- A stateless computation that succeeded gave its value, and changed nothing. -/
theorem ofExcept_eq_ok {r : Except ε α} {s t : σ} {a : α}
    (h : call (ofExcept r) s = (.ok a, t)) : r = .ok a ∧ t = s := by
  cases r with
  | ok b =>
    rw [ofExcept, call_pure] at h
    exact ⟨(Prod.ext_iff.mp h).1, (Prod.ext_iff.mp h).2.symm⟩
  | error e => simp [ofExcept] at h

/-! ## Loops -/

/-- A loop over a list with one more element is the loop, and one more round. -/
theorem call_forM_concat (l : List β) (b : β) (f : β → Exec σ ε PUnit) (s : σ) :
    call ((l ++ [b]).forM f) s = call (l.forM f >>= fun _ => f b) s := by
  induction l generalizing s with
  | nil =>
    show call (f b >>= fun _ => (pure ⟨⟩ : Exec σ ε PUnit)) s = call (f b) s
    rw [call_bind]
    rcases call (f b) s with ⟨_ | ⟨⟩, t⟩ <;> rfl
  | cons a l ih =>
    show call (f a >>= fun _ => (l ++ [b]).forM f) s =
      call ((f a >>= fun _ => l.forM f) >>= fun _ => f b) s
    rw [call_bind, call_bind, call_bind]
    rcases call (f a) s with ⟨_ | ⟨⟩, t⟩
    · rfl
    · exact (ih t).trans (call_bind ..)

/-- What every round that succeeds keeps, a loop that succeeds keeps. -/
theorem forM_eq_ok {l : List β} {f : β → Exec σ ε PUnit} {p : σ → Prop}
    (hstep : ∀ b ∈ l, ∀ s t, p s → call (f b) s = (.ok ⟨⟩, t) → p t) {s t : σ} {u : PUnit} (hs : p s)
    (h : call (l.forM f) s = (.ok u, t)) : p t := by
  induction l generalizing s with
  | nil =>
    obtain rfl := (Prod.ext_iff.mp h).2
    exact hs
  | cons b l ih =>
    obtain ⟨⟨⟩, s', hb, hrest⟩ := bind_eq_ok h
    exact ih (fun b' hb' => hstep b' (List.mem_cons_of_mem _ hb'))
      (hstep b List.mem_cons_self s s' hs hb) hrest

/-! ## Conditions in front of a program -/

/-- The program, run from `s`, ends in a value and state with `ok` or in a failure and state with
`err`. -/
def wp (x : Exec σ ε α) (ok : α → σ → Prop) (err : ε → σ → Prop) (s : σ) : Prop :=
  match call x s with
  | (.ok a, t) => ok a t
  | (.error e, t) => err e t

section Wp

variable (ok : α → σ → Prop) (err : ε → σ → Prop) (s : σ)

@[simp] theorem wp_pure (a : α) : wp (pure a : Exec σ ε α) ok err s ↔ ok a s := Iff.rfl

@[simp] theorem wp_throw (e : ε) : wp (throw e : Exec σ ε α) ok err s ↔ err e s := Iff.rfl

@[simp] theorem wp_get (ok : σ → σ → Prop) :
    wp (get : Exec σ ε σ) ok err s ↔ ok s s := Iff.rfl

@[simp] theorem wp_set (ok : PUnit → σ → Prop) (t : σ) :
    wp (set t : Exec σ ε PUnit) ok err s ↔ ok ⟨⟩ t := Iff.rfl

@[simp] theorem wp_modify (ok : PUnit → σ → Prop) (f : σ → σ) :
    wp (modify f : Exec σ ε PUnit) ok err s ↔ ok ⟨⟩ (f s) := Iff.rfl

/-- Sequential composition. -/
@[simp] theorem wp_bind (x : Exec σ ε β) (f : β → Exec σ ε α) :
    wp (x >>= f) ok err s ↔ wp x (fun b t => wp (f b) ok err t) err s := by
  unfold wp
  rw [call_bind]
  rcases call x s with ⟨_ | b, t⟩ <;> rfl

/-- A handler has to establish what the program would have. -/
@[simp] theorem wp_tryCatch (x : Exec σ ε α) (f : ε → Exec σ ε α) :
    wp (tryCatch x f) ok err s ↔ wp x ok (fun e t => wp (f e) ok err t) s := by
  unfold wp
  rw [call_tryCatch]
  rcases call x s with ⟨_ | a, t⟩ <;> rfl

@[simp] theorem wp_require (ok : Unit → σ → Prop) (c : Bool) (e : ε) :
    wp (require c e) ok err s ↔ if c then ok () s else err e s := by
  cases c <;> rfl

@[simp] theorem wp_onlyIf (ok : Unit → σ → Prop) (c : Bool) (x : Exec σ ε Unit) :
    wp (onlyIf c x) ok err s ↔ if c then wp x ok err s else ok () s := by
  cases c <;> rfl

/-- The outcome of a computation that uses no state. -/
theorem wp_ofExcept (r : Except ε α) :
    wp (ofExcept r) ok err s ↔ (∀ a, r = .ok a → ok a s) ∧ ∀ e, r = .error e → err e s := by
  cases r with
  | ok a =>
    rw [ofExcept, wp_pure]
    exact ⟨fun h => ⟨fun _ heq => Except.ok.inj heq ▸ h, nofun⟩, fun h => h.1 a rfl⟩
  | error e =>
    rw [ofExcept, wp_throw]
    exact ⟨fun h => ⟨nofun, fun _ heq => Except.error.inj heq ▸ h⟩, fun h => h.2 e rfl⟩

/-- A program on a part of the state. -/
@[simp] theorem wp_zoom {τ : Type} (view : σ → τ) (put : τ → σ → σ) (x : Exec τ ε α) :
    wp (zoom view put x) ok err s ↔
      wp x (fun a t => ok a (put t s)) (fun e t => err e (put t s)) (view s) := by
  unfold wp
  rw [call_zoom]
  rcases call x (view s) with ⟨_ | a, t⟩ <;> rfl

variable {ok err s}

/-- Weaker conditions behind a program. -/
theorem wp_mono {x : Exec σ ε α} {ok' : α → σ → Prop} {err' : ε → σ → Prop}
    (h : wp x ok err s) (hok : ∀ a t, ok a t → ok' a t) (herr : ∀ e t, err e t → err' e t) :
    wp x ok' err' s := by
  unfold wp at h ⊢
  rcases hx : call x s with ⟨_ | a, t⟩
  · rw [hx] at h
    exact herr _ t h
  · rw [hx] at h
    exact hok a t h

/-- Two specifications of a program hold together. -/
theorem wp_and {x : Exec σ ε α} {ok' : α → σ → Prop} {err' : ε → σ → Prop}
    (h : wp x ok err s) (h' : wp x ok' err' s) :
    wp x (fun a t => ok a t ∧ ok' a t) (fun e t => err e t ∧ err' e t) s := by
  unfold wp at h h' ⊢
  rcases hx : call x s with ⟨_ | a, t⟩
  · rw [hx] at h h'
    exact ⟨h, h'⟩
  · rw [hx] at h h'
    exact ⟨h, h'⟩

/-- Nothing is asked of a program that may do anything. -/
theorem wp_trivial (x : Exec σ ε α) (hok : ∀ a t, ok a t) (herr : ∀ e t, err e t) :
    wp x ok err s := by
  unfold wp
  rcases call x s with ⟨_ | a, t⟩
  · exact herr _ t
  · exact hok a t

/-- A program whose run is known. -/
theorem wp_of_call {x : Exec σ ε α} {a : α} {t : σ} (hx : call x s = (.ok a, t)) :
    wp x ok err s ↔ ok a t := by
  rw [wp, hx]

theorem wp_of_call_error {x : Exec σ ε α} {e : ε} {t : σ} (hx : call x s = (.error e, t)) :
    wp x ok err s ↔ err e t := by
  rw [wp, hx]

/-- A program ends as its run does. -/
theorem wp_self (x : Exec σ ε α) (s : σ) :
    wp x (fun a t => call x s = (.ok a, t)) (fun e t => call x s = (.error e, t)) s := by
  unfold wp
  split
  · assumption
  · assumption

/-- What holds of every outcome holds of the one that occurred. -/
theorem wp_call {x : Exec σ ε α} {r : Except ε α} {t : σ} (hx : call x s = (r, t))
    (h : wp x ok err s) : (∃ a, r = .ok a ∧ ok a t) ∨ ∃ e, r = .error e ∧ err e t := by
  rw [wp, hx] at h
  cases r with
  | ok a => exact Or.inl ⟨a, rfl, h⟩
  | error e => exact Or.inr ⟨e, rfl, h⟩

/-- A program that cannot fail has a run that succeeds. -/
theorem exists_ok_of_wp {x : Exec σ ε α} (h : wp x ok (fun _ _ => False) s) :
    ∃ a t, call x s = (.ok a, t) ∧ ok a t := by
  unfold wp at h
  split at h
  · rename_i a t hx
    exact ⟨a, t, hx, h⟩
  · exact h.elim

end Wp

-- programs are taken apart with the equations above, never by running them
attribute [irreducible] wp

/-! ## What a program keeps -/

/-- Whether it succeeds or fails, the program leaves a state that is related to the one it was run
from. -/
def Keeps (r : σ → σ → Prop) (x : Exec σ ε α) : Prop := ∀ s, wp x (fun _ => r s) (fun _ => r s) s

section Keeps

variable {r : σ → σ → Prop}

theorem Keeps.of_call {x : Exec σ ε α} (h : Keeps r x) {s t : σ} {o : Except ε α}
    (hx : call x s = (o, t)) : r s t := by
  rcases wp_call hx (h s) with ⟨_, _, hr⟩ | ⟨_, _, hr⟩
  · exact hr
  · exact hr

theorem keeps_modify {f : σ → σ} (h : ∀ s, r s (f s)) : Keeps r (modify f : Exec σ ε PUnit) := by
  intro s
  rw [wp_modify]
  exact h s

/-- A program on a part of the state keeps what the part keeps. -/
theorem Keeps.zoom {τ : Type} {q : τ → τ → Prop} {view : σ → τ} {put : τ → σ → σ} {x : Exec τ ε α}
    (h : Keeps q x) (hput : ∀ s t, q (view s) t → r s (put t s)) : Keeps r (zoom view put x) := by
  intro s
  rw [wp_zoom]
  exact wp_mono (h (view s)) (fun _ t => hput s t) (fun _ t => hput s t)

/-- A weaker relation. -/
theorem Keeps.mono {q : σ → σ → Prop} {x : Exec σ ε α} (h : Keeps r x)
    (himp : ∀ s t, r s t → q s t) : Keeps q x := fun s =>
  wp_mono (h s) (fun _ t => himp s t) (fun _ t => himp s t)

/-- Parts that keep different relations, of which the whole keeps a third. -/
theorem Keeps.seq {r' q : σ → σ → Prop} {x : Exec σ ε β} {f : β → Exec σ ε α} (hx : Keeps r x)
    (hf : ∀ b, Keeps r' (f b)) (hstop : ∀ s t, r s t → q s t)
    (hgo : ∀ s t u, r s t → r' t u → q s u) : Keeps q (x >>= f) := by
  intro s
  rw [wp_bind]
  refine wp_mono (hx s) (fun b t hst => ?_) (fun _ t => hstop s t)
  exact wp_mono (hf b t) (fun _ u => hgo s t u hst) (fun _ u => hgo s t u hst)

variable [IsPreorder σ r]

theorem keeps_pure (a : α) : Keeps r (pure a : Exec σ ε α) := fun s =>
  (wp_pure ..).mpr (Std.Refl.refl s)

theorem keeps_throw (e : ε) : Keeps r (throw e : Exec σ ε α) := fun s =>
  (wp_throw ..).mpr (Std.Refl.refl s)

theorem keeps_get : Keeps r (get : Exec σ ε σ) := fun s => (wp_get ..).mpr (Std.Refl.refl s)

/-- What both parts keep, the composition keeps. -/
theorem Keeps.bind {x : Exec σ ε β} {f : β → Exec σ ε α} (hx : Keeps r x)
    (hf : ∀ b, Keeps r (f b)) : Keeps r (x >>= f) := by
  intro s
  rw [wp_bind]
  refine wp_mono (hx s) (fun b t hst => ?_) (fun _ _ => id)
  exact wp_mono (hf b t) (fun _ u htu => IsTrans.trans s t u hst htu)
    (fun _ u htu => IsTrans.trans s t u hst htu)

theorem keeps_require (c : Bool) (e : ε) : Keeps r (require c e : Exec σ ε Unit) := by
  cases c with
  | true => exact keeps_pure ()
  | false => exact keeps_throw e

theorem Keeps.onlyIf {x : Exec σ ε Unit} (h : Keeps r x) (c : Bool) : Keeps r (onlyIf c x) := by
  cases c with
  | true => exact h
  | false => exact keeps_pure ()

theorem keeps_ofExcept (v : Except ε α) : Keeps r (ofExcept v : Exec σ ε α) := by
  cases v with
  | ok a => exact keeps_pure a
  | error e => exact keeps_throw e

end Keeps

end Exec
