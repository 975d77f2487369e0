import LibreCuda.Fifo.Submission

/-! # The ring of a channel

The ring has `entries_count` slots and two control words. The driver writes `GPPut` from a counter
of 32 bits that is never reset, the GPU advances `GPGet`, and equal words mean an empty ring. So the
ring can hold one entry less than it has slots, and no call looks at how many it holds.

* **`Counters`** says what the control words count, whatever happens.
* **`RingSound`** is what both sides rely on; **`step_ringSound_iff`** says which calls keep it.
* **`ring_sound_iff`**: it holds throughout a run if and only if every submission finds two slots
  free. -/

namespace LibreCuda

open Rings Runs

/-- The control words count modulo the number of slots. -/
structure Counters (type : QueueType) (s : FifoSystem) : Prop where
  entriesCount : (s.fifo type).entriesCount = 0x10000
  putValue : (s.fifo type).putValue.toNat = s.submitted.length % 2 ^ 32
  gpPut : (s.fifo type).gpPut.toNat = s.submitted.length % 0x10000
  gpGet : (s.fifo type).gpGet.toNat = s.fetched.length % 0x10000

/-- **The ring is sound**: fewer entries are pending than it has slots, what was fetched is what was
submitted first, in order and once each, the slots hold the rest, and the control words differ while
there is a rest. -/
structure RingSound (type : QueueType) (s : FifoSystem) : Prop where
  room : s.submitted.length < s.fetched.length + (s.fifo type).entriesCount.toNat
  fetched_le : s.fetched.length ≤ s.submitted.length
  inOrder : s.fetched = (s.submitted.take s.fetched.length).map Submission.entry
  holds : Holds (s.fifo type).entriesCount.toNat (BitVec.ofNat 32) (s.fifo type).ring
    (s.submitted.map Submission.entry) s.fetched.length
  put_ne_get : s.fetched.length < s.submitted.length → (s.fifo type).gpPut ≠ (s.fifo type).gpGet

/-- The condition: a submission finds two slots free, one for its entry and one that stays free. -/
def FindsSlots (type : QueueType) (s : FifoSystem) : FifoEvent → Prop
  | .submit _ buffer => buffer ≠ [] →
      s.submitted.length + 1 < s.fetched.length + (s.fifo type).entriesCount.toNat
  | .fetch => True

variable {type : QueueType} {s s' : FifoSystem}

/-! ## Control words -/

theorem counters_of_fresh (h : s.Fresh type) : Counters type s := by
  refine ⟨h.entriesCount, ?_, ?_, ?_⟩
  · rw [h.putValue, h.submitted]
    rfl
  · rw [h.gpPut, h.submitted]
    rfl
  · rw [h.gpGet, h.fetched]
    rfl

/-- A control word that is moved on by one counts one more. -/
theorem toNat_next {word : NvU32} {n : ℕ} (h : word.toNat % 0x10000 = n % 0x10000) :
    ((word + 1) % 0x10000).toNat = (n + 1) % 0x10000 := by
  rw [BitVec.toNat_umod, BitVec.toNat_add]
  show (word.toNat + 1) % 2 ^ 32 % 0x10000 = _
  omega

/-- The control words count in every step. -/
theorem counters_step {e : FifoEvent} (h : Counters type s) (hstep : s.step type e = some s') :
    Counters type s' := by
  cases e with
  | submit stream buffer =>
    rcases step_submit hstep with ⟨-, hsame⟩ | ⟨-, hsub⟩
    · refine ⟨?_, ?_, ?_, ?_⟩
      · rw [hsame.fifo]
        exact h.entriesCount
      · rw [hsame.fifo, hsame.submitted]
        exact h.putValue
      · rw [hsame.fifo, hsame.submitted]
        exact h.gpPut
      · rw [hsame.fifo, hsame.fetched]
        exact h.gpGet
    · have hput := h.putValue
      refine ⟨?_, ?_, ?_, ?_⟩
      · rw [hsub.fifo]
        exact h.entriesCount
      · rw [hsub.fifo, hsub.submitted, List.length_append, List.length_singleton,
          BitVec.toNat_add, hput]
        show (s.submitted.length % 2 ^ 32 + 1) % 2 ^ 32 = _
        omega
      · rw [hsub.fifo, hsub.submitted, List.length_append, List.length_singleton,
          h.entriesCount]
        apply toNat_next
        omega
      · rw [hsub.fifo, hsub.fetched]
        exact h.gpGet
  | fetch =>
    have hf := step_fetched hstep
    refine ⟨?_, ?_, ?_, ?_⟩
    · rw [hf.fifo]
      exact h.entriesCount
    · rw [hf.fifo, hf.submitted]
      exact h.putValue
    · rw [hf.fifo, hf.submitted]
      exact h.gpPut
    · rw [hf.fifo, hf.fetched, List.length_append, List.length_singleton, h.entriesCount]
      apply toNat_next
      have := h.gpGet
      omega

/-! ## The ring -/

theorem ringSound_of_fresh (h : s.Fresh type) : RingSound type s := by
  refine ⟨?_, ?_, ?_, ?_, ?_⟩
  · rw [h.submitted, h.fetched, h.entriesCount]
    decide
  · rw [h.submitted, h.fetched]
    exact Nat.le_refl _
  · rw [h.submitted, h.fetched]
    rfl
  · intro k a hk ha
    rw [h.submitted] at ha
    cases ha
  · intro hlt
    rw [h.submitted, h.fetched] at hlt
    exact absurd hlt (Nat.lt_irrefl _)

/-- Slots below `entries_count` are told apart by their 32-bit index. -/
theorem slot_injective :
    ∀ i < 0x10000, ∀ j < 0x10000, BitVec.ofNat 32 i = BitVec.ofNat 32 j → i = j := by
  intro i hi j hj heq
  have hnat := congrArg BitVec.toNat heq
  rw [BitVec.toNat_ofNat, BitVec.toNat_ofNat] at hnat
  omega

/-- Equal control words mean an empty ring, as long as fewer entries are pending than there are
slots. -/
theorem gpPut_eq_gpGet_iff (hc : Counters type s) (hle : s.fetched.length ≤ s.submitted.length)
    (hroom : s.submitted.length < s.fetched.length + 0x10000) :
    (s.fifo type).gpPut = (s.fifo type).gpGet ↔ s.fetched.length = s.submitted.length := by
  rw [← mod_eq_iff hle hroom, ← hc.gpGet, ← hc.gpPut, eq_comm]
  exact BitVec.toNat_inj.symm

/-- A submission that finds its slots keeps the ring sound. -/
theorem RingSound.submit {stream n : ℕ} (hc : Counters type s) (h : RingSound type s)
    (hsub : Submitted type stream n s s') (hc' : Counters type s')
    (hroom : s.submitted.length + 1 < s.fetched.length + 0x10000) : RingSound type s' := by
  have hlen : s'.submitted.length = s.submitted.length + 1 := by
    rw [hsub.submitted, List.length_append, List.length_singleton]
  have hle := h.fetched_le
  have hroom' : s'.submitted.length < s'.fetched.length + 0x10000 := by
    rw [hlen, hsub.fetched]
    exact hroom
  have hle' : s'.fetched.length ≤ s'.submitted.length := by
    rw [hlen, hsub.fetched]
    omega
  have hslot : (s.fifo type).putValue % (s.fifo type).entriesCount =
      BitVec.ofNat 32 ((s.submitted.map Submission.entry).length % 0x10000) := by
    apply BitVec.eq_of_toNat_eq
    rw [BitVec.toNat_umod, hc.entriesCount, hc.putValue, BitVec.toNat_ofNat, List.length_map]
    show s.submitted.length % 2 ^ 32 % 0x10000 = _
    omega
  have hholds := h.holds
  rw [hc.entriesCount] at hholds
  refine ⟨?_, hle', ?_, ?_, fun hlt heq => ?_⟩
  · rw [hc'.entriesCount]
    exact hroom'
  · rw [hsub.fetched, hsub.submitted, List.take_append_of_le_length hle]
    exact h.inOrder
  · rw [hc'.entriesCount, hsub.submitted, List.map_append, hsub.fetched, hsub.fifo, hslot]
    exact hholds.push slot_injective (by rw [List.length_map]; omega) _
  · exact hlt.ne ((gpPut_eq_gpGet_iff hc' hle' hroom').mp heq)

/-- The slot `GPGet` points at holds the oldest pending entry. -/
theorem RingSound.oldest (hc : Counters type s) (h : RingSound type s)
    (hlt : s.fetched.length < s.submitted.length) :
    (s.fifo type).ring (s.fifo type).gpGet = (s.submitted[s.fetched.length]).entry := by
  have hget : (s.fifo type).gpGet =
      BitVec.ofNat 32 (s.fetched.length % (s.fifo type).entriesCount.toNat) := by
    apply BitVec.eq_of_toNat_eq
    rw [hc.gpGet, hc.entriesCount, BitVec.toNat_ofNat]
    show _ = s.fetched.length % 0x10000 % 2 ^ 32
    omega
  rw [hget]
  refine h.holds _ _ (Nat.le_refl _) ?_
  rw [List.getElem?_map, List.getElem?_eq_getElem hlt]
  rfl

/-- A fetch keeps the ring sound. -/
theorem RingSound.fetch (hc : Counters type s) (h : RingSound type s)
    (hf : LibreCuda.Fetched type s s') (hc' : Counters type s') : RingSound type s' := by
  have hroom : s.submitted.length < s.fetched.length + 0x10000 := by
    have hroom := h.room
    rw [hc.entriesCount] at hroom
    exact hroom
  have hlt : s.fetched.length < s.submitted.length := by
    refine lt_of_le_of_ne h.fetched_le fun heq => hf.pending ?_
    exact ((gpPut_eq_gpGet_iff hc h.fetched_le hroom).mpr heq).symm
  have hlen : s'.fetched.length = s.fetched.length + 1 := by
    rw [hf.fetched, List.length_append, List.length_singleton]
  have hroom' : s'.submitted.length < s'.fetched.length + 0x10000 := by
    rw [hlen, hf.submitted]
    omega
  have hle' : s'.fetched.length ≤ s'.submitted.length := by
    rw [hlen, hf.submitted]
    exact hlt
  refine ⟨?_, hle', ?_, ?_, fun hlt' heq => ?_⟩
  · rw [hc'.entriesCount]
    exact hroom'
  · rw [hlen, hf.submitted, hf.fetched, List.take_succ_eq_append_getElem hlt, List.map_append,
      ← h.inOrder, h.oldest hc hlt]
    rfl
  · rw [hlen, hf.submitted, hf.fifo]
    exact h.holds.pop
  · exact hlt'.ne ((gpPut_eq_gpGet_iff hc' hle' hroom').mp heq)

/-- **Which steps keep the ring sound**: all but the submissions that do not find two slots free. -/
theorem step_ringSound_iff {e : FifoEvent} (hc : Counters type s) (h : RingSound type s)
    (hstep : s.step type e = some s') : RingSound type s' ↔ FindsSlots type s e := by
  have hc' := counters_step hc hstep
  cases e with
  | submit stream buffer =>
    rcases step_submit hstep with ⟨hempty, hsame⟩ | ⟨hne, hsub⟩
    · refine iff_of_true ⟨?_, ?_, ?_, ?_, ?_⟩ fun hne => absurd hempty hne
      · rw [hsame.submitted, hsame.fetched, hsame.fifo]
        exact h.room
      · rw [hsame.submitted, hsame.fetched]
        exact h.fetched_le
      · rw [hsame.submitted, hsame.fetched]
        exact h.inOrder
      · rw [hsame.submitted, hsame.fetched, hsame.fifo]
        exact h.holds
      · rw [hsame.submitted, hsame.fetched, hsame.fifo]
        exact h.put_ne_get
    · constructor
      · intro h' _
        have hroom := h'.room
        rw [hsub.submitted, hsub.fetched, List.length_append, List.length_singleton,
          hc'.entriesCount] at hroom
        rw [hc.entriesCount]
        exact hroom
      · intro hroom
        have hroom := hroom hne
        rw [hc.entriesCount] at hroom
        exact h.submit hc hsub hc' hroom
  | fetch => exact iff_of_true (h.fetch hc (step_fetched hstep) hc') trivial

/-- **The ring of a channel is sound throughout a run if and only if every submission finds two
slots free.** -/
theorem ring_sound_iff (type : QueueType) (s : FifoSystem) (hs : s.Fresh type)
    (events : List FifoEvent) :
    Always (FifoSystem.step type) (RingSound type) s events ↔
      Meets (FifoSystem.step type) (FindsSlots type) s events :=
  always_iff_meets (fun _ _ _ hc hstep => counters_step hc hstep)
    (fun _ _ _ hc h hstep => step_ringSound_iff hc h hstep) (counters_of_fresh hs)
    (ringSound_of_fresh hs)

/-! ## A run that overflows -/

/-- Submissions that all fit in the page succeed, whatever the GPU has fetched. -/
theorem exec_replicate (type : QueueType) (s : FifoSystem) (stream k : ℕ)
    {buffer : List MethodCall} (hne : buffer ≠ []) (hfits : (s.page type stream).commandWriteIdx + k * (commandWords buffer).length ≤
      maxCmdQueuePageSize) :
    ∃ t, exec (FifoSystem.step type) s (List.replicate k (.submit stream buffer)) = some t ∧
      t.submitted.length = s.submitted.length + k ∧ t.fetched = s.fetched := by
  induction k generalizing s with
  | zero => exact ⟨s, rfl, rfl, rfl⟩
  | succ k ih =>
    rw [Nat.succ_mul] at hfits
    obtain ⟨s', hstep⟩ : ∃ s', s.step type (.submit stream buffer) = some s' :=
      step_of_maySubmit (Or.inl (fits_iff.mpr (by omega)))
    obtain ⟨hempty, -⟩ | ⟨-, hsub⟩ := step_submit hstep
    · exact absurd hempty hne
    have hstart : s.start type stream (commandWords buffer).length =
        (s.page type stream).commandWriteIdx := if_pos (fits_iff.mpr (by omega))
    have hidx := hsub.commandWriteIdx
    rw [hstart] at hidx
    obtain ⟨t, ht, hlen, hfetched⟩ := ih s' (by omega)
    refine ⟨t, ?_, ?_, hfetched.trans hsub.fetched⟩
    · rw [List.replicate_succ, exec_cons hstep]
      exact ht
    · rw [hlen, hsub.submitted, List.length_append, List.length_singleton]
      omega

/-- One copy of 4096 bytes with its release of the timeline, as it is commenced on its own. -/
def sampleCommence : List MethodCall :=
  copyCalls 0x1200000000 0x1300000000 4096 ⟨1, false⟩ ++ releaseCalls .dma 0x1400000000 1

/-- **Overflow.** A slow GPU, and 65536 commences of one copy each: they all succeed, then `GPPut`
equals `GPGet` again, and none of the entries will be fetched. -/
theorem ring_overflows :
    (∃ t, exec (FifoSystem.step .dma) sampleFifo
        (List.replicate 65536 (.submit 0 sampleCommence)) = some t ∧
      t.submitted.length = 65536 ∧ t.fetched = [] ∧ (t.fifo .dma).gpPut = (t.fifo .dma).gpGet) ∧
    ¬ Always (FifoSystem.step .dma) (RingSound .dma) sampleFifo
      (List.replicate 65536 (.submit 0 sampleCommence)) := by
  obtain ⟨t, ht, hlen, hfetched⟩ := exec_replicate .dma sampleFifo 0 65536
    (List.cons_ne_nil _ _ : sampleCommence ≠ []) (by decide)
  have hlen : t.submitted.length = 65536 := hlen
  have hfetched : t.fetched = [] := hfetched
  have hc : Counters .dma t := Always.exec
    (always_of_step (fun _ _ _ hc hstep => counters_step hc hstep)
      (counters_of_fresh (fresh_sampleFifo .dma))) ht
  refine ⟨⟨t, ht, hlen, hfetched, ?_⟩, fun halways => ?_⟩
  · apply BitVec.eq_of_toNat_eq
    rw [hc.gpPut, hc.gpGet, hlen, hfetched]
    rfl
  · have hroom := (halways.exec ht).room
    rw [hlen, hfetched, hc.entriesCount] at hroom
    exact absurd hroom (by decide)

/-- One submission, fetched at once. -/
theorem ring_sound_iff_sample :
    Always (FifoSystem.step .dma) (RingSound .dma) sampleFifo
      [.submit 0 sampleCommence, .fetch] := by
  refine (ring_sound_iff .dma sampleFifo (fresh_sampleFifo .dma) _).mpr ?_
  exact fun s' _ => ⟨fun _ => by decide, fun s'' _ => ⟨trivial, trivial⟩⟩

end LibreCuda
