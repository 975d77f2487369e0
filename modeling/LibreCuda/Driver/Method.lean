import LibreCuda.Driver.Types

/-! # Methods of the push buffer

A command buffer is filled by `enqueue` calls, each of which pushes a method header and its
arguments. The model keeps the calls apart: a `MethodCall` is what one `enqueue` pushed, and
`MethodCall.words` are the 32-bit words it stands for in the source's `std::vector<NvU32>`. -/

namespace LibreCuda

/-- Methods are built in 64 bits (`NvMethod`) and truncated when they are pushed. -/
abbrev NvMethod : Type := NvU64

/-- `makeNvMethod`: the header of an incrementing method. The source computes in `int`. -/
def makeNvMethod (subcommand method size : NvU32) (typ : NvU32 := 2) : NvMethod :=
  ((typ <<< 28) ||| (size <<< 16) ||| (subcommand <<< 13) ||| (method.sshiftRight 2)).signExtend 64

/-! ## Method addresses of the class headers -/

def nvc6c0SetObject : NvU32 := 0x0000
def nvc6c0SetShaderLocalMemoryWindowA : NvU32 := 0x07b0
def nvc6c0SetShaderSharedMemoryWindowA : NvU32 := 0x02a0
def nvc6c0SetShaderLocalMemoryA : NvU32 := 0x0790
def nvc6c0SetShaderLocalMemoryNonThrottledA : NvU32 := 0x02e4
def nvc6c0InvalidateShaderCachesNoWfi : NvU32 := 0x1698
def nvc6c0SendPcasA : NvU32 := 0x02b4
def nvc6c0SendSignalingPcas2B : NvU32 := 0x02c0
def nvc56fSemAddrLo : NvU32 := 0x005c
def nvc56fNonStallInterrupt : NvU32 := 0x0020
def nvc6b5SetSemaphoreA : NvU32 := 0x0240
def nvc6b5LaunchDma : NvU32 := 0x0300
def nvc6b5OffsetInUpper : NvU32 := 0x0400
def nvc6b5LineLengthIn : NvU32 := 0x0418

/-- Class of the copy engine (`AMPERE_DMA_COPY_B`). -/
def ampereDmaCopyB : NvU32 := 0xc7b5

/-- Bookkeeping: the operation a method starts on its engine, and whether it was enqueued as an
asynchronous one. -/
structure OpTag where
  number : ℕ
  async : Bool
  deriving DecidableEq, Repr

/-- What one `enqueue` pushed: the header word and the arguments after it. The field `op` is
bookkeeping of the model: the operation that the method starts on the engine, if it starts one. -/
structure MethodCall where
  header : NvU32
  args : List NvU32
  op : Option OpTag := none
  deriving DecidableEq, Repr

/-- The words in the command buffer. -/
def MethodCall.words (m : MethodCall) : List NvU32 := m.header :: m.args

/-- The words of a command buffer (`std::vector<NvU32>`). -/
def commandWords (buffer : List MethodCall) : List NvU32 := buffer.flatMap MethodCall.words

@[simp] theorem commandWords_nil : commandWords [] = [] := rfl

@[simp] theorem commandWords_append (a b : List MethodCall) :
    commandWords (a ++ b) = commandWords a ++ commandWords b := List.flatMap_append

/-- A command buffer has words as soon as it has a method. -/
theorem commandWords_eq_nil {buffer : List MethodCall} :
    commandWords buffer = [] ↔ buffer = [] := by
  cases buffer with
  | nil => simp
  | cons m rest => simp [commandWords, MethodCall.words]

end LibreCuda
