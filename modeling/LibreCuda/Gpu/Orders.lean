import LibreCuda.Foundation.Orders
import LibreCuda.Gpu.Decode

/-! # What the engines are ordered to do

The compute engine launches the descriptor whose address, shifted right by eight bits, was sent to
it; the copy engine copies between the two addresses and the number of bytes in its registers.

* **`orderEngine`** is an engine with these registers.
* **`dutiesOf`** reads the methods of a buffer without their signals, one method after another:
  unlike `commandsOf` it distributes over appending for all buffers (**`duties_commandsOf`**). -/

namespace LibreCuda

open Channels

/-- What an engine can be ordered to do. -/
inductive Order
  | launch (qmdAddr : NvU64)
  | copy (dst src : NvU64) (numBytes : NvU32)
  deriving DecidableEq, Repr

/-- The registers that an order is read from. -/
structure OrderRegs where
  pcas : NvU64 := 0
  offsetIn : NvU64 := 0
  offsetOut : NvU64 := 0
  lineLengthIn : NvU32 := 0
  deriving DecidableEq, Repr

/-- A method of the compute channel: `SEND_PCAS_A` has the address of a descriptor. -/
def setCompute (regs : OrderRegs) (m : MethodCall) : OrderRegs :=
  if m.header = methodHeader 1 nvc6c0SendPcasA 1 then
    match m.args with
    | [addrShifted] => { regs with pcas := addrShifted.setWidth 64 <<< 8 }
    | _ => regs
  else regs

/-- A method of the copy engine: `OFFSET_IN_UPPER` and the three methods behind it have the two
addresses, and `LINE_LENGTH_IN` has the number of bytes. -/
def setDma (regs : OrderRegs) (m : MethodCall) : OrderRegs :=
  if m.header = methodHeader 4 nvc6b5OffsetInUpper 4 then
    match m.args with
    | [inHi, inLo, outHi, outLo] =>
      { regs with offsetIn := inHi ++ inLo, offsetOut := outHi ++ outLo }
    | _ => regs
  else if m.header = methodHeader 4 nvc6b5LineLengthIn 1 then
    match m.args with
    | [numBytes] => { regs with lineLengthIn := numBytes }
    | _ => regs
  else regs

/-- The two engines. -/
def orderEngine : QueueType → Engine MethodCall OrderRegs Order
  | .compute => ⟨setCompute, fun regs => .launch regs.pcas⟩
  | .dma => ⟨setDma, fun regs => .copy regs.offsetOut regs.offsetIn regs.lineLengthIn⟩

/-- The engine an order is for. -/
def Order.engine : Order → QueueType
  | .launch _ => .compute
  | .copy .. => .dma

/-- An engine reads orders for itself. -/
theorem engine_order (type : QueueType) (regs : OrderRegs) :
    ((orderEngine type).order regs).engine = type := by cases type <;> rfl

/-! ## Methods without signals -/

/-- What a method does besides releasing and acquiring. -/
def MethodCall.duties (type : QueueType) (m : MethodCall) : List GpuCommand :=
  Channels.duties (decodeMethod type {} m).2

/-- What the methods of a buffer do besides releasing and acquiring. -/
def dutiesOf (type : QueueType) (ms : List MethodCall) : List GpuCommand :=
  ms.flatMap (MethodCall.duties type)

@[simp] theorem dutiesOf_nil (type : QueueType) : dutiesOf type [] = [] := rfl

@[simp] theorem dutiesOf_append (type : QueueType) (a b : List MethodCall) :
    dutiesOf type (a ++ b) = dutiesOf type a ++ dutiesOf type b := List.flatMap_append

/-- Only releases depend on the semaphore registers. -/
theorem duties_decodeMethod (type : QueueType) (regs : SemaphoreRegs) (m : MethodCall) :
    duties (decodeMethod type regs m).2 = m.duties type := by
  cases type with
  | compute => rfl
  | dma =>
    rw [MethodCall.duties, decodeMethod, decodeMethod, decodeDma, decodeDma]
    split_ifs
    · split <;> rfl
    · split
      · rw [duties_append, duties_append]
        congr 1
        split_ifs <;> rfl
      · rfl
    · rfl

/-- **The duties of a buffer are read method by method**, whatever the registers hold. -/
theorem duties_decode (type : QueueType) (regs : SemaphoreRegs) (ms : List MethodCall) :
    duties (decode type regs ms).2 = dutiesOf type ms := by
  induction ms generalizing regs with
  | nil => rfl
  | cons m rest ih =>
    rw [decode, duties_append, duties_decodeMethod, ih]
    rfl

theorem duties_commandsOf (type : QueueType) (ms : List MethodCall) :
    duties (commandsOf type ms) = dutiesOf type ms := duties_decode type {} ms

/-- The operations that a buffer begins. -/
theorem starts_dutiesOf (type : QueueType) (ms : List MethodCall) :
    starts (dutiesOf type ms) = starts (commandsOf type ms) := by
  rw [← duties_commandsOf, starts_duties]

end LibreCuda
