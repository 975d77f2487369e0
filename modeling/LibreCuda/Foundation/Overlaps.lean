import LibreCuda.Foundation.Orders

/-! # Which operations run beside each other

On a sound machine an operation begins when every earlier one has completed or runs on the channel
it begins on; an ordered one, and one of a serial channel, only when they have completed. Behind an
ordered one there is a release, and that waits for the channel as well.

* **`Sealed`**: a stream has a release behind every ordered operation, before the next one starts;
  **`Machine.Sealed`** is the invariant that follows for what runs.
* **`Machine.Sound.start_beside`** says what an operation begins beside.
* **`Machine.Overlaps`**: operations are in execution at the same time only if these and all between
  them are *loose*. It holds in every run of a sealed machine in which what is unordered on channels
  that are not serial is loose. -/

namespace Channels

variable {ι α τ μ : Type}

/-! ## Releases behind ordered operations -/

section Streams

/-- The next release comes before the next start. -/
def Closing : List (Command α τ μ) → Prop
  | [] => False
  | .release _ _ :: _ => True
  | .acquire _ _ :: rest => Closing rest
  | .start _ _ :: _ => False
  | .other _ :: rest => Closing rest

/-- Behind every ordered start there is a release, before the next start. -/
def Sealed : List (Command α τ μ) → Prop
  | [] => True
  | .release _ _ :: rest => Sealed rest
  | .acquire _ _ :: rest => Sealed rest
  | .start _ ordered :: rest => (ordered = true → Closing rest) ∧ Sealed rest
  | .other _ :: rest => Sealed rest

theorem Closing.append {a : List (Command α τ μ)} (h : Closing a) (b : List (Command α τ μ)) :
    Closing (a ++ b) := by
  induction a with
  | nil => exact h.elim
  | cons cmd rest ih =>
    cases cmd with
    | release signal value => trivial
    | acquire signal value => exact ih h
    | start n ordered => exact h.elim
    | other mth => exact ih h

theorem Sealed.append {a b : List (Command α τ μ)} (ha : Sealed a) (hb : Sealed b) :
    Sealed (a ++ b) := by
  induction a with
  | nil => exact hb
  | cons cmd rest ih =>
    cases cmd with
    | release signal value => exact ih ha
    | acquire signal value => exact ih ha
    | start n ordered => exact ⟨fun hordered => (ha.1 hordered).append b, ih ha.2⟩
    | other mth => exact ih ha

/-- A stream that begins nothing is sealed. -/
theorem sealed_of_starts {cmds : List (Command α τ μ)} (h : starts cmds = []) : Sealed cmds := by
  induction cmds with
  | nil => trivial
  | cons cmd rest ih =>
    cases cmd with
    | release signal value => exact ih h
    | acquire signal value => exact ih h
    | start n ordered => cases h
    | other mth => exact ih h

theorem Sealed.tail {cmd : Command α τ μ} {rest : List (Command α τ μ)}
    (h : Sealed (cmd :: rest)) : Sealed rest := by
  cases cmd with
  | start n ordered => exact h.2
  | _ => exact h

end Streams

/-! ## Machines -/

variable {m m' : Machine ι α τ μ} {i : ι}

/-- Channels that are not serial have a sealed stream, also behind what runs there and is strict. -/
def Machine.Sealed (serial : ι → Bool) (strict : ℕ → Prop) (m : Machine ι α τ μ) : Prop :=
  ∀ i, serial i = false → Channels.Sealed (m.channel i).pending ∧
    ∀ n ∈ (m.channel i).running, strict n → Closing (m.channel i).pending

/-- The operation has begun: it runs, or it has completed. -/
def Machine.Begun (m : Machine ι α τ μ) (n : ℕ) : Prop :=
  n ∈ m.completed ∨ ∃ i, n ∈ (m.channel i).running

/-- An operation has begun beside an earlier one only if that one and all behind it, up to the later
one, are loose. -/
def Machine.Overlaps (floor : ℕ) (loose : ℕ → Prop) (m : Machine ι α τ μ) : Prop :=
  ∀ k, m.Begun k → ∀ n, floor < n → n < k → n ∉ m.completed → ∀ j, n ≤ j → j ≤ k → loose j

theorem Machine.Overlaps.mono {floor : ℕ} {loose loose' : ℕ → Prop} (h : m.Overlaps floor loose)
    (himp : ∀ n, loose n → loose' n) : m.Overlaps floor loose' :=
  fun k hk n hfloor hlt hopen j hj hjk => himp j (h k hk n hfloor hlt hopen j hj hjk)

theorem Machine.Sealed.mono {serial : ι → Bool} {strict strict' : ℕ → Prop}
    (h : m.Sealed serial strict)
    (himp : ∀ i, ∀ n ∈ (m.channel i).running, strict' n → strict n) : m.Sealed serial strict' :=
  fun i hserial => ⟨(h i hserial).1, fun n hn hstrict =>
    (h i hserial).2 n hn (himp i n hn hstrict)⟩

/-- Nothing begins beside what is strict. -/
theorem Machine.Sealed.not_strict {serial : ι → Bool} {strict : ℕ → Prop}
    (h : m.Sealed serial strict) (hserial : serial i = false) {k : ℕ} {ordered : Bool}
    {rest : List (Command α τ μ)} (hp : (m.channel i).pending = .start k ordered :: rest) {n : ℕ}
    (hn : n ∈ (m.channel i).running) : ¬ strict n := fun hstrict => by
  have hclosing := (h i hserial).2 n hn hstrict
  rw [hp] at hclosing
  exact hclosing

section Steps

variable [DecidableEq ι] {floor : ℕ} {loose strict : ℕ → Prop} {serial : ι → Bool}

/-! ### Submitting and completing -/

theorem running_submit (cmds : List (Command α τ μ)) (j : ι) :
    ((m.submit i cmds).channel j).running = (m.channel j).running := by
  by_cases hji : j = i
  · subst hji
    simp [Machine.submit]
  · rw [channel_submit_of_ne hji]

theorem Machine.Begun.of_submit {cmds : List (Command α τ μ)} {n : ℕ}
    (h : (m.submit i cmds).Begun n) : m.Begun n := by
  rcases h with h | ⟨j, hj⟩
  · exact Or.inl h
  · exact Or.inr ⟨j, running_submit cmds j ▸ hj⟩

theorem Machine.Begun.of_finish {k n : ℕ} (hf : m.finish i k = some m') (h : m'.Begun n) :
    m.Begun n := by
  obtain ⟨hk, hc, -, hne, -, hr⟩ := finish_cases hf
  rcases h with h | ⟨j, hj⟩
  · rw [hc] at h
    rcases List.mem_cons.mp h with rfl | h
    · exact Or.inr ⟨i, hk⟩
    · exact Or.inl h
  · refine Or.inr ⟨j, ?_⟩
    by_cases hji : j = i
    · subst hji
      rw [hr] at hj
      exact List.mem_of_mem_erase hj
    · rwa [hne j hji] at hj

/-- What has begun stays so. -/
theorem Machine.Begun.submit {cmds : List (Command α τ μ)} {n : ℕ} (h : m.Begun n) :
    (m.submit i cmds).Begun n := by
  rcases h with h | ⟨j, hj⟩
  · exact Or.inl h
  · exact Or.inr ⟨j, (running_submit cmds j).symm ▸ hj⟩

theorem Machine.Begun.finish {k n : ℕ} (hf : m.finish i k = some m') (h : m.Begun n) :
    m'.Begun n := by
  obtain ⟨-, hc, -, hne, -, hr⟩ := finish_cases hf
  rw [Machine.Begun, hc]
  rcases h with h | ⟨j, hj⟩
  · exact Or.inl (List.mem_cons_of_mem k h)
  by_cases hnk : n = k
  · exact Or.inl (hnk ▸ List.mem_cons_self)
  refine Or.inr ⟨j, ?_⟩
  by_cases hji : j = i
  · subst hji
    rw [hr]
    exact (List.mem_erase_of_ne hnk).mpr hj
  · rwa [hne j hji]

/-- Submitting begins nothing. -/
theorem Machine.Overlaps.submit (h : m.Overlaps floor loose) (cmds : List (Command α τ μ)) :
    (m.submit i cmds).Overlaps floor loose :=
  fun k hk n hfloor hlt hopen => h k hk.of_submit n hfloor hlt hopen

/-- Completing an operation begins nothing. -/
theorem Machine.Overlaps.finish {k : ℕ} (h : m.Overlaps floor loose)
    (hf : m.finish i k = some m') : m'.Overlaps floor loose := by
  obtain ⟨-, hc, -⟩ := finish_cases hf
  refine fun l hl n hfloor hlt hopen => h l (hl.of_finish hf) n hfloor hlt fun hn => hopen ?_
  rw [hc]
  exact List.mem_cons_of_mem k hn

/-- A sealed stream goes behind what is pending. -/
theorem Machine.Sealed.submit {cmds : List (Command α τ μ)} (h : m.Sealed serial strict)
    (hcmds : serial i = false → Channels.Sealed cmds) : (m.submit i cmds).Sealed serial strict := by
  intro j hserial
  rw [running_submit]
  obtain ⟨hsealed, hrunning⟩ := h j hserial
  by_cases hji : j = i
  · subst hji
    rw [pending_submit_self]
    exact ⟨hsealed.append (hcmds hserial), fun n hn hstrict => (hrunning n hn hstrict).append cmds⟩
  · rw [channel_submit_of_ne hji]
    exact ⟨hsealed, hrunning⟩

theorem Machine.Sealed.finish {k : ℕ} (h : m.Sealed serial strict) (hf : m.finish i k = some m') :
    m'.Sealed serial strict := by
  obtain ⟨-, -, -, hne, hp, hr⟩ := finish_cases hf
  intro j hserial
  by_cases hji : j = i
  · subst hji
    rw [hp, hr]
    exact ⟨(h j hserial).1, fun n hn => (h j hserial).2 n (List.mem_of_mem_erase hn)⟩
  · rw [hne j hji]
    exact h j hserial

/-! ### Fetching -/

variable [DecidableEq α] [DecidableEq τ] {sig : α} {num : τ → ℕ}

/-- **A fetch keeps the machine sealed**: a release is executed when nothing runs, and nothing
starts while the stream is closing. -/
theorem Machine.Sealed.fetch (h : m.Sealed serial strict) (hf : m.fetch serial i = some m')
    (hstrict : ∀ n ordered rest, serial i = false →
      (m.channel i).pending = .start n ordered :: rest → strict n → ordered = true) :
    m'.Sealed serial strict := by
  obtain ⟨cmd, rest, hp, -, hne, hp', hcmd⟩ := fetch_cases hf
  intro j hserial
  by_cases hji : j = i
  swap
  · rw [hne j hji]
    exact h j hserial
  subst hji
  obtain ⟨hsealed, hrunning⟩ := h j hserial
  rw [hp] at hsealed hrunning
  rw [hp']
  refine ⟨hsealed.tail, fun n hn hn' => ?_⟩
  cases cmd with
  | release signal value =>
    rw [hcmd.2.1] at hn
    cases hn
  | acquire signal value =>
    rw [hcmd.2.1] at hn
    exact hrunning n hn hn'
  | other mth =>
    rw [hcmd.1] at hn
    exact hrunning n hn hn'
  | start k ordered =>
    rw [hcmd.2.1] at hn
    rcases List.mem_cons.mp hn with rfl | hn
    · exact hsealed.1 (hstrict n ordered rest hserial hp hn')
    · exact (hrunning n hn hn').elim

omit [DecidableEq ι] [DecidableEq τ] in
/-- **What an operation begins beside**: every earlier one has completed, or it runs on the same
channel, which is not serial, and the operation is not ordered. -/
theorem Machine.Sound.start_beside {n : ℕ} {ordered : Bool} {rest : List (Command α τ μ)}
    (h : m.Sound floor serial sig num) (hp : (m.channel i).pending = .start n ordered :: rest)
    (hfree : serial i = true → (m.channel i).running = []) {l : ℕ} (hfloor : floor < l)
    (hlt : l < n) : l ∈ m.completed ∨
      l ∈ (m.channel i).running ∧ serial i = false ∧ ordered = false := by
  obtain ⟨k, hv, ho, -⟩ := h.2 i
  rw [hp] at ho
  obtain ⟨hupTo, hsure⟩ := ho.1
  rcases hv.2 l hfloor (by omega) with hdone | hrun
  · exact Or.inl hdone
  cases hs : serial i with
  | true =>
    rw [hfree hs] at hrun
    cases hrun
  | false =>
    cases ordered with
    | false => exact Or.inr ⟨hrun, rfl, rfl⟩
    | true =>
      have hn := hsure rfl
      rw [hs] at hn
      simp only [Bool.false_eq_true, if_false] at hn
      exact Or.inl (hv.1 l hfloor (by omega))

theorem Machine.Begun.fetch {n : ℕ}
    (hf : m.fetch serial i = some m') (h : m.Begun n) : m'.Begun n := by
  obtain ⟨cmd, rest, hp, hc, hne, -, hcmd⟩ := fetch_cases hf
  rw [Machine.Begun, hc]
  rcases h with h | ⟨j, hj⟩
  · exact Or.inl h
  refine Or.inr ⟨j, ?_⟩
  by_cases hji : j = i
  swap
  · rwa [hne j hji]
  subst hji
  cases cmd with
  | release signal value =>
    rw [hcmd.1] at hj
    cases hj
  | acquire signal value => rwa [hcmd.2.1]
  | other mth => rwa [hcmd.1]
  | start k ordered =>
    rw [hcmd.2.1]
    exact List.mem_cons_of_mem k hj

/-- An operation that has begun behind a fetch had begun before, or the fetch begins it. -/
theorem Machine.Begun.of_fetch {n : ℕ} (hf : m.fetch serial i = some m') (h : m'.Begun n) :
    m.Begun n ∨ ∃ ordered rest, (m.channel i).pending = .start n ordered :: rest ∧
      (serial i = true → (m.channel i).running = []) := by
  obtain ⟨cmd, rest, hp, hc, hne, -, hcmd⟩ := fetch_cases hf
  rcases h with h | ⟨j, hj⟩
  · rw [hc] at h
    exact Or.inl (Or.inl h)
  by_cases hji : j = i
  swap
  · rw [hne j hji] at hj
    exact Or.inl (Or.inr ⟨j, hj⟩)
  subst hji
  cases cmd with
  | release signal value =>
    rw [hcmd.2.1] at hj
    cases hj
  | acquire signal value =>
    rw [hcmd.2.1] at hj
    exact Or.inl (Or.inr ⟨j, hj⟩)
  | other mth =>
    rw [hcmd.1] at hj
    exact Or.inl (Or.inr ⟨j, hj⟩)
  | start k ordered =>
    rw [hcmd.2.1] at hj
    rcases List.mem_cons.mp hj with rfl | hj
    · exact Or.inr ⟨ordered, rest, hp, hcmd.1⟩
    · exact Or.inl (Or.inr ⟨j, hj⟩)

/-- **A fetch keeps what overlaps**: the operation it begins is beside those of its channel only, and
what is between it and one of them has begun beside that one. -/
theorem Machine.Overlaps.fetch (h : m.Overlaps floor loose) (hs : m.Sound floor serial sig num)
    (hf : m.fetch serial i = some m')
    (hrunning : ∀ k ordered rest, serial i = false →
      (m.channel i).pending = .start k ordered :: rest → ∀ n ∈ (m.channel i).running, loose n)
    (hstart : ∀ n rest, serial i = false → (m.channel i).pending = .start n false :: rest →
      loose n) : m'.Overlaps floor loose := by
  obtain ⟨_, _, -, hc, -⟩ := fetch_cases hf
  intro k hk n hfloor hlt hopen
  rw [hc] at hopen
  rcases hk.of_fetch hf with hk | ⟨ordered, rest, hp, hfree⟩
  · exact h k hk n hfloor hlt hopen
  obtain ⟨hrun, hserial, rfl⟩ := (hs.start_beside hp hfree hfloor hlt).resolve_left hopen
  intro j hj hjk
  rcases Nat.lt_or_eq_of_le hjk with hjk | rfl
  · rcases Nat.lt_or_eq_of_le hj with hj | rfl
    · have hbegun : m.Begun j := by
        rcases hs.start_beside hp hfree (hfloor.trans hj) hjk with hdone | ⟨hjrun, -⟩
        · exact Or.inl hdone
        · exact Or.inr ⟨i, hjrun⟩
      exact h j hbegun n hfloor hj hopen j hj.le (Nat.le_refl j)
    · exact hrunning k false rest hserial hp n hrun
  · exact hstart j rest hserial hp

end Steps

end Channels
