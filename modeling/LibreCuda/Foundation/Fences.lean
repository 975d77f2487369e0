import LibreCuda.Foundation.Channels

/-! # Waiting for a channel through a signal

Whoever waits until a signal has reached a number learns what a channel has executed when the only
release that lets the signal reach that number is the last command of the channel.

* **`Machine.Below`** bounds the signal and every release of it that a channel has yet to execute.
* **`Machine.Fence`**: the last command of a channel is the only one to lift the signal to a number.
  It stays so until the channel is drained (`Machine.Fence.fetch`), and so a signal that has reached
  the number tells that the channel is drained. -/

namespace Channels

variable {ι α τ μ : Type}

/-- The channel has executed everything, and nothing runs on it. -/
def Machine.Drained (m : Machine ι α τ μ) (i : ι) : Prop :=
  (m.channel i).pending = [] ∧ (m.channel i).running = []

section Bounds

variable (sig : α) (num : τ → ℕ)

/-- The signal and the releases of it still to come carry at most `n`. -/
def Machine.Below (m : Machine ι α τ μ) (n : ℕ) : Prop :=
  num (m.signals sig) ≤ n ∧
    ∀ i value, .release sig value ∈ (m.channel i).pending → num value ≤ n

/-- The last command of channel `i` is the only one that will lift the signal to `n`. -/
structure Machine.Fence (m : Machine ι α τ μ) (i : ι) (n : ℕ) : Prop where
  signal : num (m.signals sig) < n
  ends : ∃ before value, (m.channel i).pending = before ++ [.release sig value] ∧ num value = n ∧
    ∀ v, .release sig v ∈ before → num v < n
  others : ∀ j, j ≠ i → ∀ v, .release sig v ∈ (m.channel j).pending → num v < n

variable {sig num}

theorem Machine.Below.mono {m : Machine ι α τ μ} {n n' : ℕ} (h : m.Below sig num n) (hle : n ≤ n') :
    m.Below sig num n' :=
  ⟨h.1.trans hle, fun i v hv => (h.2 i v hv).trans hle⟩

/-- A fence bounds everything still to come. -/
theorem Machine.Fence.below {m : Machine ι α τ μ} {i : ι} {n : ℕ} (h : m.Fence sig num i n) :
    m.Below sig num n := by
  refine ⟨h.signal.le, fun j v hv => ?_⟩
  by_cases hj : j = i
  · subst hj
    obtain ⟨before, value, hp, hval, hbefore⟩ := h.ends
    rw [hp] at hv
    rcases List.mem_append.mp hv with hv | hv
    · exact (hbefore v hv).le
    · cases List.mem_singleton.mp hv
      exact hval.le
  · exact (h.others j hj v hv).le

end Bounds

section Steps

variable [DecidableEq ι] [DecidableEq α] [DecidableEq τ] {serial : ι → Bool} {sig : α}
  {num : τ → ℕ}

/-- A drained channel stays drained until something is submitted to it. -/
theorem Machine.Drained.fetch {m m' : Machine ι α τ μ} {i j : ι} (hd : m.Drained i)
    (hf : m.fetch serial j = some m') : m'.Drained i := by
  obtain ⟨cmd, rest, hp, -, hne, -, -⟩ := fetch_cases hf
  have hij : i ≠ j := by
    rintro rfl
    rw [hd.1] at hp
    cases hp
  rw [Machine.Drained, hne i hij]
  exact hd

omit [DecidableEq α] [DecidableEq τ] in
theorem Machine.Drained.finish {m m' : Machine ι α τ μ} {i j : ι} {n : ℕ} (hd : m.Drained i)
    (hf : m.finish j n = some m') : m'.Drained i := by
  obtain ⟨hn, -, -, hne, -, -⟩ := finish_cases hf
  have hij : i ≠ j := by
    rintro rfl
    rw [hd.2] at hn
    cases hn
  rw [Machine.Drained, hne i hij]
  exact hd

omit [DecidableEq α] [DecidableEq τ] in
theorem Machine.Drained.submit_of_ne {m : Machine ι α τ μ} {i j : ι} {cmds : List (Command α τ μ)}
    (hd : m.Drained i) (hij : i ≠ j) : (m.submit j cmds).Drained i := by
  rw [Machine.Drained, show (m.submit j cmds).channel i = m.channel i from setChannel_of_ne hij ..]
  exact hd

/-- The releases still to come are fewer after a fetch. -/
theorem pending_fetch {m m' : Machine ι α τ μ} {i j : ι} (hf : m.fetch serial j = some m')
    {cmd : Command α τ μ} (hmem : cmd ∈ (m'.channel i).pending) :
    cmd ∈ (m.channel i).pending := by
  obtain ⟨first, rest, hp, -, hne, hp', -⟩ := fetch_cases hf
  by_cases hij : i = j
  · subst hij
    rw [hp]
    exact List.mem_cons_of_mem _ (hp' ▸ hmem)
  · rwa [hne i hij] at hmem

omit [DecidableEq α] [DecidableEq τ] in
theorem pending_finish {m m' : Machine ι α τ μ} {i j : ι} {n : ℕ} (hf : m.finish j n = some m')
    {cmd : Command α τ μ} (hmem : cmd ∈ (m'.channel i).pending) :
    cmd ∈ (m.channel i).pending := by
  obtain ⟨-, -, -, hne, hp, -⟩ := finish_cases hf
  by_cases hij : i = j
  · subst hij
    rwa [hp] at hmem
  · rwa [hne i hij] at hmem

/-- The value of a signal after a fetch is the value before it or that of a release that was
fetched. -/
theorem signal_fetch (sig : α) {m m' : Machine ι α τ μ} {j : ι} (hf : m.fetch serial j = some m') :
    m'.signals sig = m.signals sig ∨
      ∃ rest, (m.channel j).pending = .release sig (m'.signals sig) :: rest := by
  obtain ⟨cmd, rest, hp, -, -, -, hcmd⟩ := fetch_cases hf
  cases cmd with
  | release signal value =>
    rw [hcmd.2.2]
    by_cases hs : sig = signal
    · subst hs
      exact Or.inr ⟨rest, by rw [Function.update_self, hp]⟩
    · exact Or.inl (Function.update_of_ne hs ..)
  | acquire signal value => exact Or.inl (by rw [hcmd.2.2])
  | start n ordered => exact Or.inl (by rw [hcmd.2.2])
  | other mth => exact Or.inl (by rw [hcmd.2])

theorem Machine.Below.fetch {m m' : Machine ι α τ μ} {j : ι} {n : ℕ} (hb : m.Below sig num n)
    (hf : m.fetch serial j = some m') : m'.Below sig num n := by
  refine ⟨?_, fun i v hv => hb.2 i v (pending_fetch hf hv)⟩
  rcases signal_fetch sig hf with hsame | ⟨rest, hp⟩
  · rw [hsame]
    exact hb.1
  · exact hb.2 j _ (hp ▸ List.mem_cons_self)

omit [DecidableEq α] [DecidableEq τ] in
theorem Machine.Below.finish {m m' : Machine ι α τ μ} {j : ι} {n k : ℕ} (hb : m.Below sig num n)
    (hf : m.finish j k = some m') : m'.Below sig num n := by
  obtain ⟨-, -, hsig, -⟩ := finish_cases hf
  exact ⟨by rw [hsig]; exact hb.1, fun i v hv => hb.2 i v (pending_finish hf hv)⟩

/-- **A fence stands until its channel is drained.** -/
theorem Machine.Fence.fetch {m m' : Machine ι α τ μ} {i j : ι} {n : ℕ} (h : m.Fence sig num i n)
    (hf : m.fetch serial j = some m') : m'.Fence sig num i n ∨ m'.Drained i := by
  obtain ⟨before, value, hends, hval, hbefore⟩ := h.ends
  have hothers : ∀ k, k ≠ i → ∀ v, .release sig v ∈ (m'.channel k).pending → num v < n :=
    fun k hk v hv => h.others k hk v (pending_fetch hf hv)
  by_cases hij : j = i
  · subst hij
    obtain ⟨cmd, rest, hp, -, -, hp', hcmd⟩ := fetch_cases hf
    cases before with
    | nil =>
      -- the fence itself is executed, on an idle channel
      obtain ⟨rfl, rfl⟩ := List.cons.inj (hends.symm.trans hp)
      exact Or.inr ⟨hp', hcmd.2.1⟩
    | cons first before =>
      obtain ⟨rfl, rfl⟩ := List.cons.inj (hends.symm.trans hp)
      refine Or.inl ⟨?_, ⟨before, value, hp', hval, fun v hv =>
        hbefore v (List.mem_cons_of_mem _ hv)⟩, hothers⟩
      rcases signal_fetch sig hf with hsame | ⟨rest, hp''⟩
      · rw [hsame]
        exact h.signal
      · obtain ⟨rfl, -⟩ := List.cons.inj (hp.symm.trans hp'')
        exact hbefore _ List.mem_cons_self
  · obtain ⟨-, -, -, -, hne, -, -⟩ := fetch_cases hf
    refine Or.inl ⟨?_, ?_, hothers⟩
    · rcases signal_fetch sig hf with hsame | ⟨rest, hp⟩
      · rw [hsame]
        exact h.signal
      · exact h.others j hij _ (hp ▸ List.mem_cons_self)
    · rw [hne i (Ne.symm hij)]
      exact h.ends

omit [DecidableEq α] [DecidableEq τ] in
theorem Machine.Fence.finish {m m' : Machine ι α τ μ} {i j : ι} {n k : ℕ} (h : m.Fence sig num i n)
    (hf : m.finish j k = some m') : m'.Fence sig num i n := by
  obtain ⟨-, -, hsig, hne, hp, -⟩ := finish_cases hf
  have hpend : ∀ l, (m'.channel l).pending = (m.channel l).pending := fun l => by
    by_cases hl : l = j
    · rw [hl, hp]
    · rw [hne l hl]
  exact ⟨hsig ▸ h.signal, hpend i ▸ h.ends, fun l hl => hpend l ▸ h.others l hl⟩

omit [DecidableEq α] [DecidableEq τ] in
/-- **Submitting commands that end with the highest release yet raises a fence.** -/
theorem Machine.Below.fence {m : Machine ι α τ μ} {i : ι} {low n : ℕ} (hb : m.Below sig num low)
    (hlow : low < n) {before : List (Command α τ μ)} {value : τ} (hval : num value = n)
    (hbefore : ∀ v, .release sig v ∈ before → num v < n) :
    (m.submit i (before ++ [.release sig value])).Fence sig num i n := by
  refine ⟨hb.1.trans_lt hlow, ⟨(m.channel i).pending ++ before, value, ?_, hval, fun v hv => ?_⟩,
    fun j hj v hv => ?_⟩
  · rw [Machine.submit, setChannel_self, List.append_assoc]
  · rcases List.mem_append.mp hv with hv | hv
    · exact (hb.2 i v hv).trans_lt hlow
    · exact hbefore v hv
  · rw [Machine.submit, setChannel_of_ne hj] at hv
    exact (hb.2 j v hv).trans_lt hlow

end Steps

end Channels
