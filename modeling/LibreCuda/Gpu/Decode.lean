import LibreCuda.Driver.State
import LibreCuda.Foundation.Channels

/-! # What an engine makes of its methods

`decode` reads the methods of a command buffer as the commands of a channel: semaphore releases and
acquires, the start of an operation, and methods that are neither. The compute channel has one
semaphore method, which carries address and payload; the copy engine sets address and payload in its
registers first and releases with the next `LAUNCH_DMA`.

**`commandsOf`** is the reading of a whole buffer. It does not depend on what the registers held
before for the buffers the driver builds (`Closed`), and then distributes over appending. -/

namespace LibreCuda

open Channels

/-- The commands of the two channels. -/
abbrev GpuCommand : Type := Command NvU64 NvU64 MethodCall

/-- The header word of a method. -/
def methodHeader (subcommand method size : NvU32) : NvU32 :=
  (makeNvMethod subcommand method size).setWidth 32

/-- The semaphore registers of the copy engine. -/
structure SemaphoreRegs where
  address : NvU64 := 0
  payload : NvU32 := 0

/-- The operation a launching method starts. -/
def startOf (m : MethodCall) : GpuCommand :=
  match m.op with
  | some tag => .start tag.number (!tag.async)
  | none => .other m

/-- A method of the compute channel. `SEM_EXECUTE` acquires with operation 0 and releases with
operation 1; the non-stall interrupt only notifies the host. -/
def decodeCompute (m : MethodCall) : List GpuCommand :=
  if m.header = methodHeader 0 nvc56fSemAddrLo 5 then
    match m.args with
    | [addrLo, addrHi, payloadLo, payloadHi, execute] =>
      if execute &&& 7 = 1 then [.release (addrHi ++ addrLo) (payloadHi ++ payloadLo)]
      else if execute &&& 7 = 0 then [.acquire (addrHi ++ addrLo) (payloadHi ++ payloadLo)]
      else [.other m]
    | _ => [.other m]
  else if m.header = methodHeader 4 nvc56fNonStallInterrupt 1 then []
  else if m.header = methodHeader 1 nvc6c0SendSignalingPcas2B 1 then [startOf m]
  else [.other m]

/-- A method of the copy engine. `LAUNCH_DMA` transfers data when its two low bits are set and
releases the semaphore when the two bits above the third are. -/
def decodeDma (regs : SemaphoreRegs) (m : MethodCall) : SemaphoreRegs × List GpuCommand :=
  if m.header = methodHeader 4 nvc6b5SetSemaphoreA 3 then
    match m.args with
    | [addrHi, addrLo, payload] => (⟨addrHi ++ addrLo, payload⟩, [])
    | _ => (regs, [.other m])
  else if m.header = methodHeader 4 nvc6b5LaunchDma 1 then
    match m.args with
    | [flags] => (regs,
        (if flags &&& 0x3 = 0 then [] else [startOf m]) ++
        (if flags &&& 0x18 = 0 then [] else [.release regs.address (regs.payload.setWidth 64)]))
    | _ => (regs, [.other m])
  else (regs, [.other m])

/-- A method of an engine. -/
def decodeMethod (type : QueueType) (regs : SemaphoreRegs) (m : MethodCall) :
    SemaphoreRegs × List GpuCommand :=
  match type with
  | .compute => (regs, decodeCompute m)
  | .dma => decodeDma regs m

/-- The methods of a command buffer. -/
def decode (type : QueueType) (regs : SemaphoreRegs) :
    List MethodCall → SemaphoreRegs × List GpuCommand
  | [] => (regs, [])
  | m :: rest =>
    let (regs, cmds) := decodeMethod type regs m
    let (regs, more) := decode type regs rest
    (regs, cmds ++ more)

/-- The commands of a buffer. -/
def commandsOf (type : QueueType) (buffer : List MethodCall) : List GpuCommand :=
  (decode type {} buffer).2

/-- The registers do not matter for the commands of a buffer. -/
def Closed (type : QueueType) (buffer : List MethodCall) : Prop :=
  ∀ regs, (decode type regs buffer).2 = commandsOf type buffer

theorem decode_append (type : QueueType) (regs : SemaphoreRegs) (a b : List MethodCall) :
    (decode type regs (a ++ b)).2 =
      (decode type regs a).2 ++ (decode type (decode type regs a).1 b).2 := by
  induction a generalizing regs with
  | nil => rfl
  | cons m rest ih => simp [decode, ih]

@[simp] theorem commandsOf_nil (type : QueueType) : commandsOf type [] = [] := rfl

@[simp] theorem closed_nil (type : QueueType) : Closed type [] := fun _ => rfl

/-- The commands of a buffer that was appended to. -/
theorem commandsOf_append {type : QueueType} {a b : List MethodCall} (hb : Closed type b) :
    commandsOf type (a ++ b) = commandsOf type a ++ commandsOf type b := by
  rw [commandsOf, decode_append, hb]
  rfl

theorem Closed.append {type : QueueType} {a b : List MethodCall} (ha : Closed type a)
    (hb : Closed type b) : Closed type (a ++ b) := by
  intro regs
  rw [decode_append, hb, ha, commandsOf_append hb]

/-- The compute channel has no registers. -/
theorem closed_compute (buffer : List MethodCall) : Closed .compute buffer := by
  suffices h : ∀ r r', (decode .compute r buffer).2 = (decode .compute r' buffer).2 from
    fun regs => h regs {}
  induction buffer with
  | nil => exact fun _ _ => rfl
  | cons m rest ih =>
    intro r r'
    simp only [decode, decodeMethod]
    rw [ih r r']

/-- A start is read from a method that carries its tag. -/
theorem tag_of_start {type : QueueType} {buffer : List MethodCall} {n : ℕ} {ordered : Bool}
    (h : .start n ordered ∈ commandsOf type buffer) :
    ∃ m ∈ buffer, m.op = some ⟨n, !ordered⟩ := by
  have hstart : ∀ m : MethodCall, .start n ordered = startOf m → m.op = some ⟨n, !ordered⟩ := by
    intro m hm
    unfold startOf at hm
    split at hm
    · rename_i tag htag
      cases hm
      rw [htag, Bool.not_not]
    · cases hm
  have hmethod : ∀ (regs : SemaphoreRegs) (m : MethodCall),
      .start n ordered ∈ (decodeMethod type regs m).2 → m.op = some ⟨n, !ordered⟩ := by
    intro regs m hm
    cases type with
    | compute =>
      simp only [decodeMethod, decodeCompute] at hm
      split at hm
      · split at hm
        · split_ifs at hm <;> simp at hm
        · simp at hm
      · split_ifs at hm
        · simp at hm
        · exact hstart m (List.mem_singleton.mp hm)
        · simp at hm
    | dma =>
      simp only [decodeMethod, decodeDma] at hm
      split at hm
      · split at hm <;> simp at hm
      · split_ifs at hm
        · split at hm
          · rcases List.mem_append.mp hm with hm | hm
            · split_ifs at hm
              · cases hm
              · exact hstart m (List.mem_singleton.mp hm)
            · split_ifs at hm <;> simp at hm
          · simp at hm
        · simp at hm
  suffices hdecode : ∀ regs, .start n ordered ∈ (decode type regs buffer).2 →
      ∃ m ∈ buffer, m.op = some ⟨n, !ordered⟩ from hdecode {} h
  clear h
  induction buffer with
  | nil => exact fun _ h => (List.not_mem_nil h).elim
  | cons m rest ih =>
    intro regs h
    rcases List.mem_append.mp h with h | h
    · exact ⟨m, List.mem_cons_self, hmethod regs m h⟩
    · obtain ⟨m', hmem, hm'⟩ := ih _ h
      exact ⟨m', List.mem_cons_of_mem m hmem, hm'⟩

end LibreCuda
