import Mathlib.Data.List.Basic
import Mathlib.Logic.Function.Basic
import Mathlib.Order.MinMax

/-! # Channels that execute numbered work in order

A machine with several channels. Each channel executes its own commands in the order they were
submitted; the channels advance independently of one another and share a memory of signals. Work is
numbered: `start n` begins operation `n`, which completes at some later time of its own. A release
waits until the channel is idle, an acquire blocks the channel until the signal equals its payload,
and on a serial channel an operation waits for its predecessor.

* **`Machine.fetch`**, **`Machine.finish`**, **`Machine.submit`** are the steps of the machine.
* **`lastRelease`** and **`Matched`** speak of a sequence of commands: the value a signal was
  released with last, and whether every acquire of it carries that value.
* **`Known`** is what can be said at a position of a channel's stream whatever the other channels
  do; **`Known.Allows`** is the discipline a command has to keep for one signal, the *tracked* one,
  to count completed operations.
* **`Machine.Sound`** is the invariant: a value of the tracked signal is reached only after all
  operations up to it have completed. **`Machine.Ahead`** bounds what is known at the end of a
  channel's stream. Both survive every step, and together they give **`Machine.start_after`**: an
  ordered operation starts after all earlier ones. -/

namespace Channels

variable {ι α τ μ : Type}

/-- A command of a channel, over signal addresses `α`, signal values `τ` and methods `μ` that touch
neither signals nor operations. -/
inductive Command (α τ μ : Type)
  | release (signal : α) (value : τ)
  | acquire (signal : α) (value : τ)
  /-- Begin an operation; an ordered one must begin after all earlier ones have completed. -/
  | start (op : ℕ) (ordered : Bool)
  | other (m : μ)
  deriving DecidableEq, Repr

/-- The operation a command begins. -/
def Command.op : Command α τ μ → Option ℕ
  | .start n _ => some n
  | _ => none

/-- A channel: the commands not yet executed and the operations begun and not completed. -/
structure Channel (α τ μ : Type) where
  pending : List (Command α τ μ) := []
  running : List ℕ := []

/-- The machine: its channels, the signals, and the operations completed so far. -/
structure Machine (ι α τ μ : Type) where
  channel : ι → Channel α τ μ := fun _ => {}
  signals : α → τ
  completed : List ℕ := []

/-! ## Steps -/

section Channel

variable [DecidableEq ι]

/-- Replace a channel. -/
def Machine.setChannel (m : Machine ι α τ μ) (i : ι) (c : Channel α τ μ) : Machine ι α τ μ :=
  { m with channel := Function.update m.channel i c }

/-- An operation that is running on a channel completes. -/
def Machine.finish (m : Machine ι α τ μ) (i : ι) (n : ℕ) : Option (Machine ι α τ μ) :=
  if n ∈ (m.channel i).running then
    some { m.setChannel i ⟨(m.channel i).pending, (m.channel i).running.erase n⟩ with
      completed := n :: m.completed }
  else none

/-- Append commands to the stream of a channel. -/
def Machine.submit (m : Machine ι α τ μ) (i : ι) (cmds : List (Command α τ μ)) :
    Machine ι α τ μ :=
  m.setChannel i ⟨(m.channel i).pending ++ cmds, (m.channel i).running⟩

/-- The command a channel executes next. -/
def Machine.next (m : Machine ι α τ μ) (i : ι) : Option (Command α τ μ) :=
  (m.channel i).pending.head?

@[simp] theorem setChannel_self (m : Machine ι α τ μ) (i : ι) (c : Channel α τ μ) :
    (m.setChannel i c).channel i = c := Function.update_self ..

theorem setChannel_of_ne {i j : ι} (h : j ≠ i) (m : Machine ι α τ μ) (c : Channel α τ μ) :
    (m.setChannel i c).channel j = m.channel j := Function.update_of_ne h ..

@[simp] theorem setChannel_signals (m : Machine ι α τ μ) (i : ι) (c : Channel α τ μ) :
    (m.setChannel i c).signals = m.signals := rfl

@[simp] theorem setChannel_completed (m : Machine ι α τ μ) (i : ι) (c : Channel α τ μ) :
    (m.setChannel i c).completed = m.completed := rfl

/-- **What a completion does.** -/
theorem finish_cases {m m' : Machine ι α τ μ} {i : ι} {n : ℕ} (h : m.finish i n = some m') :
    n ∈ (m.channel i).running ∧ m'.completed = n :: m.completed ∧ m'.signals = m.signals ∧
      (∀ j, j ≠ i → m'.channel j = m.channel j) ∧
      (m'.channel i).pending = (m.channel i).pending ∧
      (m'.channel i).running = (m.channel i).running.erase n := by
  unfold Machine.finish at h
  split at h
  · rename_i hn
    cases h
    exact ⟨hn, rfl, rfl, fun j hj => setChannel_of_ne hj .., by simp, by simp⟩
  · cases h

end Channel

section Fetch

variable [DecidableEq ι] [DecidableEq α] [DecidableEq τ]

/-- Execute the first command of a channel, if it is not blocked. -/
def Machine.fetch (serial : ι → Bool) (m : Machine ι α τ μ) (i : ι) :
    Option (Machine ι α τ μ) :=
  match (m.channel i).pending with
  | [] => none
  | .release signal value :: rest =>
    if (m.channel i).running = [] then
      some { m.setChannel i ⟨rest, []⟩ with signals := Function.update m.signals signal value }
    else none
  | .acquire signal value :: rest =>
    if m.signals signal = value then some (m.setChannel i ⟨rest, (m.channel i).running⟩) else none
  | .start n _ :: rest =>
    if serial i = true ∧ (m.channel i).running ≠ [] then none
    else some (m.setChannel i ⟨rest, n :: (m.channel i).running⟩)
  | .other _ :: rest => some (m.setChannel i ⟨rest, (m.channel i).running⟩)

/-- **What a fetch does**: it drops the first command, and the command says the rest. -/
theorem fetch_cases {serial : ι → Bool} {m m' : Machine ι α τ μ} {i : ι}
    (h : m.fetch serial i = some m') :
    ∃ cmd rest, (m.channel i).pending = cmd :: rest ∧ m'.completed = m.completed ∧
      (∀ j, j ≠ i → m'.channel j = m.channel j) ∧ (m'.channel i).pending = rest ∧
      match cmd with
      | .release signal value => (m.channel i).running = [] ∧ (m'.channel i).running = [] ∧
          m'.signals = Function.update m.signals signal value
      | .acquire signal value => m.signals signal = value ∧
          (m'.channel i).running = (m.channel i).running ∧ m'.signals = m.signals
      | .start n _ => (serial i = true → (m.channel i).running = []) ∧
          (m'.channel i).running = n :: (m.channel i).running ∧ m'.signals = m.signals
      | .other _ => (m'.channel i).running = (m.channel i).running ∧ m'.signals = m.signals := by
  unfold Machine.fetch at h
  split at h
  · cases h
  · rename_i signal value rest heq
    split at h
    · rename_i hidle
      cases h
      exact ⟨_, rest, heq, rfl, fun j hj => setChannel_of_ne hj .., by simp, hidle, by simp, rfl⟩
    · cases h
  · rename_i signal value rest heq
    split at h
    · rename_i hval
      cases h
      exact ⟨_, rest, heq, rfl, fun j hj => setChannel_of_ne hj .., by simp, hval, by simp, rfl⟩
    · cases h
  · rename_i n ordered rest heq
    split at h
    · cases h
    · rename_i hserial
      cases h
      refine ⟨_, rest, heq, rfl, fun j hj => setChannel_of_ne hj .., by simp, ?_, by simp, rfl⟩
      intro hs
      by_contra hr
      exact hserial ⟨hs, hr⟩
  · rename_i rest heq
    cases h
    exact ⟨_, rest, heq, rfl, fun j hj => setChannel_of_ne hj .., by simp, by simp, rfl⟩

end Fetch

/-! ## Releases and acquires in a sequence -/

section Sequence

variable [DecidableEq α] (sig : α)

/-- The value the signal was released with last, where it was `last` before. -/
def lastRelease (last : Option τ) (cmds : List (Command α τ μ)) : Option τ :=
  cmds.foldl (fun last cmd => match cmd with
    | .release signal value => if signal = sig then some value else last
    | _ => last) last

/-- Every acquire of the signal carries the value it was released with last. -/
def Matched (last : Option τ) : List (Command α τ μ) → Prop
  | [] => True
  | .release signal value :: rest => Matched (if signal = sig then some value else last) rest
  | .acquire signal value :: rest => (signal = sig → last = some value) ∧ Matched last rest
  | .start _ _ :: rest => Matched last rest
  | .other _ :: rest => Matched last rest

/-- The command neither releases nor acquires the signal. -/
def Command.Ignores : Command α τ μ → Prop
  | .release signal _ => signal ≠ sig
  | .acquire signal _ => signal ≠ sig
  | _ => True

variable {sig}

@[simp] theorem lastRelease_nil (last : Option τ) :
    lastRelease sig last ([] : List (Command α τ μ)) = last := rfl

theorem lastRelease_append (last : Option τ) (a b : List (Command α τ μ)) :
    lastRelease sig last (a ++ b) = lastRelease sig (lastRelease sig last a) b :=
  List.foldl_append

@[simp] theorem lastRelease_singleton (last : Option τ) (value : τ) :
    lastRelease sig last ([.release sig value] : List (Command α τ μ)) = some value := by
  simp [lastRelease]

theorem matched_append (last : Option τ) (a b : List (Command α τ μ)) :
    Matched sig last (a ++ b) ↔ Matched sig last a ∧ Matched sig (lastRelease sig last a) b := by
  induction a generalizing last with
  | nil => simp [Matched]
  | cons cmd rest ih =>
    cases cmd <;> simp [Matched, lastRelease, ih, and_assoc]

/-- Commands that ignore the signal do not change what it was released with. -/
theorem lastRelease_of_ignores {cmds : List (Command α τ μ)} (h : ∀ c ∈ cmds, c.Ignores sig)
    (last : Option τ) : lastRelease sig last cmds = last := by
  induction cmds with
  | nil => rfl
  | cons cmd rest ih =>
    have hcmd := h cmd List.mem_cons_self
    have hrest := ih fun c hc => h c (List.mem_cons_of_mem cmd hc)
    cases cmd with
    | release signal value =>
      show lastRelease sig (if signal = sig then some value else last) rest = last
      rw [if_neg hcmd]
      exact hrest
    | acquire signal value => exact hrest
    | start n ordered => exact hrest
    | other m => exact hrest

theorem matched_of_ignores {cmds : List (Command α τ μ)} (h : ∀ c ∈ cmds, c.Ignores sig)
    (last : Option τ) : Matched sig last cmds := by
  induction cmds with
  | nil => trivial
  | cons cmd rest ih =>
    have hcmd := h cmd List.mem_cons_self
    have hrest := ih fun c hc => h c (List.mem_cons_of_mem cmd hc)
    cases cmd with
    | release signal value =>
      show Matched sig (if signal = sig then some value else last) rest
      rw [if_neg hcmd]
      exact hrest
    | acquire signal value => exact ⟨fun hsig => absurd hsig hcmd, hrest⟩
    | start n ordered => exact hrest
    | other m => exact hrest

/-- A value the signal was released with last was released by one of the commands, or was there
before. -/
theorem mem_of_lastRelease {cmds : List (Command α τ μ)} {last : Option τ} {value : τ}
    (h : lastRelease sig last cmds = some value) :
    last = some value ∨ .release sig value ∈ cmds := by
  induction cmds generalizing last with
  | nil => exact Or.inl h
  | cons cmd rest ih =>
    cases cmd with
    | release signal v =>
      have h' : lastRelease sig (if signal = sig then some v else last) rest = some value := h
      rcases ih h' with hlast | hmem
      · split at hlast
        · rename_i hsig
          obtain rfl := Option.some.inj hlast
          exact Or.inr (hsig ▸ List.mem_cons_self)
        · exact Or.inl hlast
      · exact Or.inr (List.mem_cons_of_mem _ hmem)
    | acquire signal v =>
      have h' : lastRelease sig last rest = some value := h
      exact (ih h').imp id (List.mem_cons_of_mem _)
    | start n ordered =>
      have h' : lastRelease sig last rest = some value := h
      exact (ih h').imp id (List.mem_cons_of_mem _)
    | other m =>
      have h' : lastRelease sig last rest = some value := h
      exact (ih h').imp id (List.mem_cons_of_mem _)

/-- The command releases the signal. -/
def Command.releases (sig : α) : Command α τ μ → Bool
  | .release signal _ => signal = sig
  | _ => false

/-- How often commands release the signal. -/
def releaseCount (sig : α) (cmds : List (Command α τ μ)) : ℕ := cmds.countP (Command.releases sig)

@[simp] theorem releaseCount_nil : releaseCount sig ([] : List (Command α τ μ)) = 0 := rfl

theorem releaseCount_append (a b : List (Command α τ μ)) :
    releaseCount sig (a ++ b) = releaseCount sig a + releaseCount sig b := List.countP_append

theorem releaseCount_cons (c : Command α τ μ) (cmds : List (Command α τ μ)) :
    releaseCount sig (c :: cmds) = releaseCount sig cmds + if c.releases sig then 1 else 0 :=
  List.countP_cons

/-- A release counts for its own signal. -/
theorem releaseCount_release (signal : α) (value : τ) :
    releaseCount sig ([.release signal value] : List (Command α τ μ)) =
      if signal = sig then 1 else 0 := by
  by_cases h : signal = sig <;> simp [releaseCount_cons, Command.releases, h]

theorem releaseCount_of_ignores {cmds : List (Command α τ μ)} (h : ∀ c ∈ cmds, c.Ignores sig) :
    releaseCount sig cmds = 0 := by
  refine List.countP_eq_zero.mpr fun c hc hreleases => ?_
  cases c with
  | release signal value => exact h _ hc (of_decide_eq_true hreleases)
  | acquire signal value => cases hreleases
  | start n ordered => cases hreleases
  | other m => cases hreleases

end Sequence

/-! ## Knowledge along a stream -/

/-- What holds at a position of a channel's stream: operations up to `sure` have completed, and
operations up to `upTo` have completed or run on this channel. -/
structure Known where
  sure : ℕ
  upTo : ℕ

/-- Pointwise order of knowledge. -/
def Known.Below (k k' : Known) : Prop := k.sure ≤ k'.sure ∧ k.upTo ≤ k'.upTo

theorem Known.Below.refl (k : Known) : k.Below k := ⟨Nat.le_refl _, Nat.le_refl _⟩

/-- Everything up to `n` is known to have completed. -/
def Known.all (n : ℕ) : Known := ⟨n, n⟩

section Discipline

/-! The tracked signal `sig` counts operations by `num`; `serial` says whether the channel is. -/

variable [DecidableEq α] (serial : Bool) (sig : α) (num : τ → ℕ)

/-- Knowledge behind a command, from knowledge in front of it. -/
def Known.advance (k : Known) : Command α τ μ → Known
  | .release _ _ => k
  | .acquire signal value =>
    if signal = sig then ⟨max k.sure (num value), max k.upTo (num value)⟩ else k
  | .start n _ => ⟨if serial then k.upTo else k.sure, max k.upTo n⟩
  | .other _ => k

/-- The discipline: a release of the tracked signal carries a number up to which everything is
known, operations start in the order of their numbers, and an ordered one only when everything
before it is known to have completed. -/
def Known.Allows (k : Known) : Command α τ μ → Prop
  | .release signal value => signal = sig → num value ≤ k.upTo
  | .acquire _ _ => True
  | .start n ordered => n ≤ k.upTo + 1 ∧
      (ordered = true → n ≤ (if serial then k.upTo else k.sure) + 1)
  | .other _ => True

/-- Knowledge at the end of a stream. -/
def Known.run (k : Known) (cmds : List (Command α τ μ)) : Known :=
  cmds.foldl (Known.advance serial sig num) k

/-- The operation a command begins, or acquires the tracked signal for. -/
def Command.reach : Command α τ μ → ℕ
  | .acquire signal value => if signal = sig then num value else 0
  | .start n _ => n
  | _ => 0

/-- The last operation that a stream begins or acquires the tracked signal for. -/
def reach (cmds : List (Command α τ μ)) : ℕ := cmds.foldr (fun c n => max (c.reach sig num) n) 0

/-- A stream that has reached `reached` has reached `n` before its first operation and its first
release of the tracked signal. -/
def CaughtUp (n reached : ℕ) : List (Command α τ μ) → Prop
  | [] => True
  | .release signal _ :: rest =>
    (signal = sig → n ≤ reached) ∧ (signal ≠ sig → CaughtUp n reached rest)
  | .acquire signal value :: rest =>
    CaughtUp n (if signal = sig then max reached (num value) else reached) rest
  | .start _ _ :: _ => n ≤ reached
  | .other _ :: rest => CaughtUp n reached rest

/-- A stream keeps the discipline at every command. -/
def Known.Orders (k : Known) : List (Command α τ μ) → Prop
  | [] => True
  | cmd :: rest => k.Allows serial sig num cmd ∧ (k.advance serial sig num cmd).Orders rest

variable {serial sig num}

@[simp] theorem run_nil (k : Known) : k.run serial sig num ([] : List (Command α τ μ)) = k := rfl

@[simp] theorem run_cons (k : Known) (cmd : Command α τ μ) (rest : List (Command α τ μ)) :
    k.run serial sig num (cmd :: rest) = (k.advance serial sig num cmd).run serial sig num rest :=
  rfl

@[simp] theorem run_append (k : Known) (a b : List (Command α τ μ)) :
    k.run serial sig num (a ++ b) = (k.run serial sig num a).run serial sig num b :=
  List.foldl_append

@[simp] theorem orders_nil (k : Known) :
    k.Orders serial sig num ([] : List (Command α τ μ)) := trivial

@[simp] theorem orders_cons (k : Known) (cmd : Command α τ μ) (rest : List (Command α τ μ)) :
    k.Orders serial sig num (cmd :: rest) ↔
      k.Allows serial sig num cmd ∧ (k.advance serial sig num cmd).Orders serial sig num rest :=
  Iff.rfl

@[simp] theorem orders_append (k : Known) (a b : List (Command α τ μ)) :
    k.Orders serial sig num (a ++ b) ↔
      k.Orders serial sig num a ∧ (k.run serial sig num a).Orders serial sig num b := by
  induction a generalizing k with
  | nil => simp
  | cons cmd rest ih => simp [ih, and_assoc]

/-- More knowledge in front gives more knowledge behind. -/
theorem advance_mono {k k' : Known} (h : k.Below k') (cmd : Command α τ μ) :
    (k.advance serial sig num cmd).Below (k'.advance serial sig num cmd) := by
  obtain ⟨hs, hu⟩ := h
  cases cmd with
  | release signal value => exact ⟨hs, hu⟩
  | acquire signal value =>
    by_cases hsig : signal = sig
    · simp only [Known.advance, hsig, if_true]
      exact ⟨max_le_max hs (Nat.le_refl _), max_le_max hu (Nat.le_refl _)⟩
    · simp only [Known.advance, hsig, if_false]
      exact ⟨hs, hu⟩
  | start n ordered =>
    refine ⟨?_, max_le_max hu (Nat.le_refl _)⟩
    cases serial with
    | true => exact hu
    | false => exact hs
  | other m => exact ⟨hs, hu⟩

omit [DecidableEq α] in
/-- A command that is allowed stays allowed with more knowledge. -/
theorem allows_mono {k k' : Known} (h : k.Below k') {cmd : Command α τ μ}
    (ha : k.Allows serial sig num cmd) : k'.Allows serial sig num cmd := by
  obtain ⟨hs, hu⟩ := h
  cases cmd with
  | release signal value => exact fun hsig => (ha hsig).trans hu
  | acquire signal value => trivial
  | start n ordered =>
    refine ⟨ha.1.trans (by omega), fun ho => (ha.2 ho).trans ?_⟩
    cases serial with
    | true => simpa using hu
    | false => simpa using hs
  | other m => trivial

theorem run_mono {k k' : Known} (h : k.Below k') (cmds : List (Command α τ μ)) :
    (k.run serial sig num cmds).Below (k'.run serial sig num cmds) := by
  induction cmds generalizing k k' with
  | nil => exact h
  | cons cmd rest ih => exact ih (advance_mono h cmd)

theorem orders_mono {k k' : Known} (h : k.Below k') {cmds : List (Command α τ μ)}
    (ho : k.Orders serial sig num cmds) : k'.Orders serial sig num cmds := by
  induction cmds generalizing k k' with
  | nil => trivial
  | cons cmd rest ih => exact ⟨allows_mono h ho.1, ih (advance_mono h cmd) ho.2⟩

/-- Knowledge about running operations is never lost along a stream. -/
theorem upTo_le_advance (k : Known) (cmd : Command α τ μ) :
    k.upTo ≤ (k.advance serial sig num cmd).upTo := by
  cases cmd with
  | release signal value => exact Nat.le_refl _
  | acquire signal value =>
    by_cases hsig : signal = sig
    · simp only [Known.advance, hsig, if_true]
      exact Nat.le_max_left _ _
    · simp [Known.advance, hsig]
  | start n ordered => exact Nat.le_max_left _ _
  | other m => exact Nat.le_refl _

theorem upTo_le_run (k : Known) (cmds : List (Command α τ μ)) :
    k.upTo ≤ (k.run serial sig num cmds).upTo := by
  induction cmds generalizing k with
  | nil => exact Nat.le_refl _
  | cons cmd rest ih => exact (upTo_le_advance k cmd).trans (ih _)

/-- What has completed in front of a command has completed behind it, if `sure` stays below
`upTo`. -/
theorem sure_le_advance {k : Known} (h : k.sure ≤ k.upTo) (cmd : Command α τ μ) :
    k.sure ≤ (k.advance serial sig num cmd).sure ∧
      (k.advance serial sig num cmd).sure ≤ (k.advance serial sig num cmd).upTo := by
  cases cmd with
  | release signal value => exact ⟨Nat.le_refl _, h⟩
  | acquire signal value =>
    by_cases hsig : signal = sig
    · simp only [Known.advance, hsig, if_true]
      omega
    · simpa [Known.advance, hsig] using h
  | start n ordered =>
    cases serial <;> simp only [Known.advance] <;> simp <;> omega
  | other m => exact ⟨Nat.le_refl _, h⟩

theorem sure_le_run {k : Known} (h : k.sure ≤ k.upTo) (cmds : List (Command α τ μ)) :
    k.sure ≤ (k.run serial sig num cmds).sure ∧
      (k.run serial sig num cmds).sure ≤ (k.run serial sig num cmds).upTo := by
  induction cmds generalizing k with
  | nil => exact ⟨Nat.le_refl _, h⟩
  | cons cmd rest ih =>
    obtain ⟨h1, h2⟩ : k.sure ≤ (k.advance serial sig num cmd).sure ∧ _ := sure_le_advance h cmd
    exact ⟨h1.trans (ih h2).1, (ih h2).2⟩

theorem reach_append (a b : List (Command α τ μ)) :
    reach sig num (a ++ b) = max (reach sig num a) (reach sig num b) := by
  induction a with
  | nil => simp [reach]
  | cons cmd rest ih =>
    show max _ (reach sig num (rest ++ b)) = max (max _ (reach sig num rest)) _
    rw [ih, max_assoc]

theorem upTo_advance (k : Known) (cmd : Command α τ μ) :
    (k.advance serial sig num cmd).upTo = max k.upTo (cmd.reach sig num) := by
  cases cmd with
  | release signal value => simp [Known.advance, Command.reach]
  | acquire signal value =>
    by_cases hsig : signal = sig <;> simp [Known.advance, Command.reach, hsig]
  | start n ordered => rfl
  | other m => simp [Known.advance, Command.reach]

/-- What is known behind a stream: what was known in front of it, and what it reaches. -/
theorem upTo_run (k : Known) (cmds : List (Command α τ μ)) :
    (k.run serial sig num cmds).upTo = max k.upTo (reach sig num cmds) := by
  induction cmds generalizing k with
  | nil => simp [reach]
  | cons cmd rest ih =>
    rw [run_cons, ih, upTo_advance, max_assoc]
    rfl

/-- A stream that has reached `n` is caught up. -/
theorem caughtUp_of_le {n reached : ℕ} (h : n ≤ reached) (cmds : List (Command α τ μ)) :
    CaughtUp sig num n reached cmds := by
  induction cmds generalizing reached with
  | nil => trivial
  | cons cmd rest ih =>
    cases cmd with
    | release signal value => exact ⟨fun _ => h, fun _ => ih h⟩
    | acquire signal value =>
      have hle : n ≤ if signal = sig then max reached (num value) else reached := by
        split_ifs
        · exact h.trans (Nat.le_max_left _ _)
        · exact h
      exact ih hle
    | start k ordered => exact h
    | other m => exact ih h

/-- Having reached more, a stream stays caught up. -/
theorem CaughtUp.mono {n reached reached' : ℕ} (hle : reached ≤ reached')
    {cmds : List (Command α τ μ)} (h : CaughtUp sig num n reached cmds) :
    CaughtUp sig num n reached' cmds := by
  induction cmds generalizing reached reached' with
  | nil => trivial
  | cons cmd rest ih =>
    cases cmd with
    | release signal value => exact ⟨fun hs => (h.1 hs).trans hle, fun hs => ih hle (h.2 hs)⟩
    | acquire signal value =>
      have hle' : (if signal = sig then max reached (num value) else reached) ≤
          if signal = sig then max reached' (num value) else reached' := by
        split_ifs
        · exact max_le_max hle (Nat.le_refl _)
        · exact hle
      exact ih hle' h
    | start k ordered => exact (show n ≤ reached from h).trans hle
    | other m => exact ih hle h

/-- **A stream that is caught up keeps a discipline it keeps with more begun in front of it**: it
needs to know of what has begun from its first operation or release on only. -/
theorem orders_of_caughtUp {k k' : Known} {n : ℕ} {cmds : List (Command α τ μ)}
    (ho : k.Orders serial sig num cmds) (hsure : k.sure ≤ k'.sure) (hn : k.upTo ≤ max n k'.upTo)
    (hc : CaughtUp sig num n k'.upTo cmds) : k'.Orders serial sig num cmds := by
  induction cmds generalizing k k' with
  | nil => trivial
  | cons cmd rest ih =>
    have hbelow : n ≤ k'.upTo → k.Below k' := fun h => ⟨hsure, by omega⟩
    cases cmd with
    | release signal value =>
      by_cases hs : signal = sig
      · exact orders_mono (hbelow (hc.1 hs)) ho
      · exact ⟨fun h => absurd h hs, ih ho.2 hsure hn (hc.2 hs)⟩
    | acquire signal value =>
      by_cases hs : signal = sig
      · simp only [CaughtUp, hs, if_true] at hc
        simp only [orders_cons, Known.advance, hs, if_true] at ho ⊢
        exact ⟨trivial, ih ho.2 (max_le_max hsure (Nat.le_refl _)) (by simp only; omega) hc⟩
      · simp only [CaughtUp, hs, if_false] at hc
        simp only [orders_cons, Known.advance, hs, if_false] at ho ⊢
        exact ⟨trivial, ih ho.2 hsure hn hc⟩
    | start m ordered => exact orders_mono (hbelow hc) ho
    | other m => exact ⟨trivial, ih ho.2 hsure hn hc⟩

/-- The operations a stream begins are known behind it. -/
theorem op_le_run {k : Known} {cmds : List (Command α τ μ)} {cmd : Command α τ μ} {n : ℕ}
    (hmem : cmd ∈ cmds) (hop : cmd.op = some n) : n ≤ (k.run serial sig num cmds).upTo := by
  induction cmds generalizing k with
  | nil => cases hmem
  | cons hd tl ih =>
    rcases List.mem_cons.mp hmem with rfl | htl
    · cases cmd with
      | start n' ordered =>
        cases hop
        exact (Nat.le_max_right k.upTo _).trans
          (upTo_le_run (k.advance serial sig num (.start n ordered)) tl)
      | release signal value => cases hop
      | acquire signal value => cases hop
      | other m => cases hop
    · exact ih htl

end Discipline

/-! ## Soundness of the tracked signal -/

section Sound

variable [DecidableEq α] (floor : ℕ) (serial : ι → Bool) (sig : α) (num : τ → ℕ)

/-- All operations above `floor` and up to `n` have completed. -/
def Machine.Done (m : Machine ι α τ μ) (n : ℕ) : Prop :=
  ∀ k, floor < k → k ≤ n → k ∈ m.completed

/-- The knowledge is true of the channel. -/
def Machine.Valid (m : Machine ι α τ μ) (i : ι) (k : Known) : Prop :=
  m.Done floor k.sure ∧
    ∀ n, floor < n → n ≤ k.upTo → n ∈ m.completed ∨ n ∈ (m.channel i).running

/-- Some knowledge that is true of the channel orders its stream and ends no lower than `e`. -/
def Machine.Ahead (m : Machine ι α τ μ) (i : ι) (e : Known) : Prop :=
  ∃ k, m.Valid floor i k ∧ k.Orders (serial i) sig num (m.channel i).pending ∧
    e.Below (k.run (serial i) sig num (m.channel i).pending)

/-- **The invariant**: the value of the tracked signal counts completed operations, and every
channel's stream keeps the discipline. -/
def Machine.Sound (m : Machine ι α τ μ) : Prop :=
  m.Done floor (num (m.signals sig)) ∧ ∀ i, m.Ahead floor serial sig num i (Known.all 0)

variable {floor serial sig num}

omit [DecidableEq α] in
theorem Machine.Done.mono {m : Machine ι α τ μ} {n n' : ℕ} (h : m.Done floor n') (hle : n ≤ n') :
    m.Done floor n := fun k hf hk => h k hf (hk.trans hle)

omit [DecidableEq α] in
theorem Machine.Done.max {m : Machine ι α τ μ} {a b : ℕ} (ha : m.Done floor a) (hb : m.Done floor b) :
    m.Done floor (max a b) := by
  intro k hf hk
  rcases le_max_iff.mp hk with h | h
  · exact ha k hf h
  · exact hb k hf h

theorem Machine.Ahead.mono {m : Machine ι α τ μ} {i : ι} {e e' : Known} (he : e.Below e')
    (h : m.Ahead floor serial sig num i e') : m.Ahead floor serial sig num i e := by
  obtain ⟨k, hv, ho, hle⟩ := h
  exact ⟨k, hv, ho, he.1.trans hle.1, he.2.trans hle.2⟩

/-- What has completed is known at the end of every stream as well. -/
theorem Machine.Ahead.raise {m : Machine ι α τ μ} {i : ι} {e : Known} {c : ℕ} (hc : m.Done floor c)
    (h : m.Ahead floor serial sig num i e) :
    m.Ahead floor serial sig num i ⟨max e.sure c, max e.upTo c⟩ := by
  obtain ⟨k, hv, ho, hle⟩ := h
  have hbelow : k.Below ⟨max k.sure c, max k.upTo c⟩ :=
    ⟨Nat.le_max_left _ _, Nat.le_max_left _ _⟩
  have hall : (Known.all c).Below ⟨max k.sure c, max k.upTo c⟩ :=
    ⟨Nat.le_max_right _ _, Nat.le_max_right _ _⟩
  refine ⟨⟨max k.sure c, max k.upTo c⟩, ⟨Machine.Done.max hv.1 hc, ?_⟩, orders_mono hbelow ho, ?_⟩
  · intro n hf hn
    rcases le_max_iff.mp hn with h | h
    · exact hv.2 n hf h
    · exact Or.inl (hc n hf h)
  · have h1 : (k.run (serial i) sig num (m.channel i).pending).Below _ := run_mono hbelow _
    have h2 : ((Known.all c).run (serial i) sig num (m.channel i).pending).Below _ :=
      run_mono hall _
    have h3 := (sure_le_run (Nat.le_refl _) (m.channel i).pending).1.trans h2.1
    have h4 := (upTo_le_run (Known.all c) (m.channel i).pending).trans h2.2
    exact ⟨max_le (hle.1.trans h1.1) h3, max_le (hle.2.trans h1.2) h4⟩

variable [DecidableEq ι]

/-- Submitting commands that keep the discipline behind what is known at the end of the stream. -/
theorem Machine.Ahead.submit {m : Machine ι α τ μ} {i : ι} {e : Known} {cmds : List (Command α τ μ)}
    (h : m.Ahead floor serial sig num i e) (hcmds : e.Orders (serial i) sig num cmds) :
    (m.submit i cmds).Ahead floor serial sig num i (e.run (serial i) sig num cmds) := by
  obtain ⟨k, hv, ho, hle⟩ := h
  refine ⟨k, ?_, ?_, ?_⟩
  · exact ⟨hv.1, fun n hf hn => by simpa [Machine.submit] using hv.2 n hf hn⟩
  · simpa [Machine.submit] using And.intro ho (orders_mono hle hcmds)
  · simpa [Machine.submit] using run_mono hle cmds

/-- Submitting to one channel leaves the others alone. -/
theorem Machine.Ahead.submit_of_ne {m : Machine ι α τ μ} {i j : ι} {e : Known}
    {cmds : List (Command α τ μ)} (hne : j ≠ i) (h : m.Ahead floor serial sig num j e) :
    (m.submit i cmds).Ahead floor serial sig num j e := by
  obtain ⟨k, hv, ho, hle⟩ := h
  have hch : (m.submit i cmds).channel j = m.channel j := setChannel_of_ne hne ..
  refine ⟨k, ⟨hv.1, ?_⟩, ?_, ?_⟩
  · rw [hch]
    exact hv.2
  · rw [hch]
    exact ho
  · rw [hch]
    exact hle

omit [DecidableEq α] in
/-- A completion only adds to what has completed. -/
theorem Machine.Done.finish {m m' : Machine ι α τ μ} {i : ι} {n c : ℕ} (hf : m.finish i n = some m')
    (h : m.Done floor c) : m'.Done floor c := by
  intro k hk hkc
  rw [(finish_cases hf).2.1]
  exact List.mem_cons_of_mem n (h k hk hkc)

/-- What is known at the end of a stream survives a completion. -/
theorem Machine.Ahead.finish {m m' : Machine ι α τ μ} {i j : ι} {n : ℕ} {e : Known}
    (hf : m.finish i n = some m') (h : m.Ahead floor serial sig num j e) :
    m'.Ahead floor serial sig num j e := by
  obtain ⟨hn, hc, -, hne, hp, hr⟩ := finish_cases hf
  obtain ⟨k, hv, ho, hle⟩ := h
  have hpend : (m'.channel j).pending = (m.channel j).pending := by
    by_cases hij : j = i
    · rw [hij, hp]
    · rw [hne j hij]
  refine ⟨k, ⟨Machine.Done.finish hf hv.1, ?_⟩, hpend ▸ ho, hpend ▸ hle⟩
  intro l hl hlk
  rw [hc]
  rcases hv.2 l hl hlk with hdone | hrun
  · exact Or.inl (List.mem_cons_of_mem n hdone)
  by_cases hln : l = n
  · exact Or.inl (hln ▸ List.mem_cons_self)
  right
  by_cases hij : j = i
  · subst hij
    rw [hr]
    exact (List.mem_erase_of_ne hln).mpr hrun
  · rw [hne j hij]
    exact hrun

variable [DecidableEq τ]

/-- A fetch leaves the completed operations as they are. -/
theorem Machine.Done.fetch {m m' : Machine ι α τ μ} {i : ι} {c : ℕ} (hf : m.fetch serial i = some m')
    (h : m.Done floor c) : m'.Done floor c := by
  obtain ⟨cmd, rest, -, hc, -⟩ := fetch_cases hf
  intro k hk hkc
  rw [hc]
  exact h k hk hkc

/-- The knowledge behind the command that a fetch executes is true of the channel. -/
theorem Machine.Valid.fetch {m m' : Machine ι α τ μ} {i : ι} {k : Known} {cmd : Command α τ μ}
    {rest : List (Command α τ μ)} (hsound : m.Done floor (num (m.signals sig)))
    (hf : m.fetch serial i = some m') (hp : (m.channel i).pending = cmd :: rest)
    (ha : k.Allows (serial i) sig num cmd) (hv : m.Valid floor i k) :
    m'.Valid floor i (k.advance (serial i) sig num cmd) := by
  obtain ⟨cmd', rest', hp', hc, -, -, hcmd⟩ := fetch_cases hf
  obtain ⟨rfl, rfl⟩ := List.cons.inj (hp.symm.trans hp')
  have hdone : ∀ c, m.Done floor c → m'.Done floor c := fun c h => Machine.Done.fetch hf h
  cases cmd with
  | release signal value =>
    -- the channel is idle, so what may have been running has completed
    obtain ⟨hidle, -, -⟩ := hcmd
    have hall : m.Done floor k.upTo := by
      intro n hfl hn
      have := hv.2 n hfl hn
      rwa [hidle, or_iff_left (List.not_mem_nil)] at this
    exact ⟨hdone _ hv.1, fun n hfl hn => Or.inl (hdone _ hall n hfl hn)⟩
  | acquire signal value =>
    obtain ⟨hval, hrun, -⟩ := hcmd
    by_cases hsig : signal = sig
    · subst hsig
      simp only [Known.advance, if_true]
      rw [hval] at hsound
      refine ⟨hdone _ (Machine.Done.max hv.1 hsound), fun n hfl hn => ?_⟩
      rcases le_max_iff.mp hn with h | h
      · rw [hc, hrun]
        exact hv.2 n hfl h
      · exact Or.inl (hdone _ hsound n hfl h)
    · simp only [Known.advance, hsig, if_false]
      refine ⟨hdone _ hv.1, fun n hfl hn => ?_⟩
      rw [hc, hrun]
      exact hv.2 n hfl hn
  | start n ordered =>
    obtain ⟨hserial, hrun, -⟩ := hcmd
    refine ⟨?_, fun l hfl hl => ?_⟩
    · cases hs : serial i with
      | false => exact hdone _ hv.1
      | true =>
        -- on a serial channel the predecessor has completed
        refine hdone _ fun l hfl hl => ?_
        have := hv.2 l hfl hl
        rwa [hserial hs, or_iff_left (List.not_mem_nil)] at this
    · rw [hc, hrun]
      rcases le_max_iff.mp hl with h | h
      · exact (hv.2 l hfl h).imp id (List.mem_cons_of_mem n)
      · by_cases hln : l = n
        · exact Or.inr (hln ▸ List.mem_cons_self)
        · by_cases hlu : l ≤ k.upTo
          · exact (hv.2 l hfl hlu).imp id (List.mem_cons_of_mem n)
          · exact absurd ha.1 (by omega)
  | other mth =>
    refine ⟨hdone _ hv.1, fun n hfl hn => ?_⟩
    rw [hc, hcmd.1]
    exact hv.2 n hfl hn

/-- What is known at the end of a stream survives a fetch. -/
theorem Machine.Ahead.fetch {m m' : Machine ι α τ μ} {i j : ι} {e : Known}
    (hsound : m.Done floor (num (m.signals sig))) (hf : m.fetch serial i = some m')
    (h : m.Ahead floor serial sig num j e) : m'.Ahead floor serial sig num j e := by
  obtain ⟨k, hv, ho, hle⟩ := h
  obtain ⟨cmd, rest, hp, hc, hne, hp', -⟩ := fetch_cases hf
  by_cases hij : j = i
  · subst hij
    rw [hp] at ho hle
    exact ⟨k.advance (serial j) sig num cmd, Machine.Valid.fetch hsound hf hp ho.1 hv, hp' ▸ ho.2, hp' ▸ hle⟩
  · refine ⟨k, ⟨Machine.Done.fetch hf hv.1, fun n hfl hn => ?_⟩, ?_, ?_⟩
    · rw [hc, hne j hij]
      exact hv.2 n hfl hn
    · rw [hne j hij]
      exact ho
    · rw [hne j hij]
      exact hle

/-- The tracked signal still counts completed operations after a fetch: a release that changes it
was allowed, and the channel it came from is idle. -/
theorem signals_fetch {m m' : Machine ι α τ μ} {i : ι} (hs : m.Sound floor serial sig num)
    (hf : m.fetch serial i = some m') : m'.Done floor (num (m'.signals sig)) := by
  obtain ⟨hdone, hahead⟩ := hs
  obtain ⟨k, hv, ho, -⟩ := hahead i
  obtain ⟨cmd, rest, hp, hc, -, -, hcmd⟩ := fetch_cases hf
  rw [hp] at ho
  cases cmd with
  | release signal value =>
    obtain ⟨hidle, -, hsig⟩ := hcmd
    by_cases hs : signal = sig
    · subst hs
      rw [hsig, Function.update_self]
      refine Machine.Done.fetch hf fun n hfl hn => ?_
      have := hv.2 n hfl (hn.trans (ho.1 rfl))
      rwa [hidle, or_iff_left List.not_mem_nil] at this
    · rw [hsig, Function.update_of_ne (Ne.symm hs)]
      exact Machine.Done.fetch hf hdone
  | acquire signal value =>
    rw [hcmd.2.2]
    exact Machine.Done.fetch hf hdone
  | start n ordered =>
    rw [hcmd.2.2]
    exact Machine.Done.fetch hf hdone
  | other mth =>
    rw [hcmd.2]
    exact Machine.Done.fetch hf hdone

/-- **A fetch keeps the invariant.** -/
theorem Machine.Sound.fetch {m m' : Machine ι α τ μ} {i : ι} (h : m.Sound floor serial sig num)
    (hf : m.fetch serial i = some m') : m'.Sound floor serial sig num :=
  ⟨signals_fetch h hf, fun j => Machine.Ahead.fetch h.1 hf (h.2 j)⟩

omit [DecidableEq τ] in
/-- **A completion keeps the invariant.** -/
theorem Machine.Sound.finish {m m' : Machine ι α τ μ} {i : ι} {n : ℕ} (h : m.Sound floor serial sig num)
    (hf : m.finish i n = some m') : m'.Sound floor serial sig num := by
  refine ⟨?_, fun j => Machine.Ahead.finish hf (h.2 j)⟩
  rw [(finish_cases hf).2.2.1]
  exact Machine.Done.finish hf h.1

omit [DecidableEq τ] in
/-- **Submitting commands that keep the discipline keeps the invariant.** -/
theorem Machine.Sound.submit {m : Machine ι α τ μ} {i : ι} {e : Known} {cmds : List (Command α τ μ)}
    (h : m.Sound floor serial sig num) (he : m.Ahead floor serial sig num i e)
    (hcmds : e.Orders (serial i) sig num cmds) : (m.submit i cmds).Sound floor serial sig num := by
  refine ⟨h.1, fun j => ?_⟩
  by_cases hij : j = i
  · subst hij
    exact Machine.Ahead.mono ⟨Nat.zero_le _, Nat.zero_le _⟩ (Machine.Ahead.submit he hcmds)
  · exact Machine.Ahead.submit_of_ne hij (h.2 j)

omit [DecidableEq ι] [DecidableEq τ] in
/-- **An ordered operation starts after all earlier ones have completed**: when it is the next
command of a channel that is free for it, everything below its number is done. -/
theorem Machine.Sound.start_after {m : Machine ι α τ μ} {i : ι} {n : ℕ}
    (h : m.Sound floor serial sig num) (hnext : m.next i = some (.start n true))
    (hfree : serial i = true → (m.channel i).running = []) : m.Done floor (n - 1) := by
  obtain ⟨k, hv, ho, -⟩ := h.2 i
  obtain ⟨rest, hp⟩ : ∃ rest, (m.channel i).pending = .start n true :: rest := by
    rw [Machine.next, List.head?_eq_some_iff] at hnext
    exact hnext
  rw [hp] at ho
  have hn := ho.1.2 rfl
  cases hs : serial i with
  | false =>
    rw [hs] at hn
    exact Machine.Done.mono hv.1 (by simpa using hn)
  | true =>
    rw [hs] at hn
    intro l hfl hl
    have := hv.2 l hfl (hl.trans (by simpa using hn))
    rwa [hfree hs, or_iff_left List.not_mem_nil] at this

end Sound

end Channels
