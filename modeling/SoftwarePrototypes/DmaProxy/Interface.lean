import Mathlib.Data.BitVec

/-! # The interface shared by the DMA proxy driver and its test application

Constants, commands and the layout of one channel buffer, from `dma-proxy.h`.
-/

namespace SoftwarePrototypes.DmaProxy

def bufferSize : Nat := 128 * 1024

def bufferCount : Nat := 32

def txBufferCount : Nat := 1

def rxBufferCount : Nat := 32

def bufferIncrement : Nat := 1

/-- The ioctl numbers of the header; `unknown` stands for every other number. -/
inductive Cmd where
  | finishXfer | startXfer | xfer | showBuflen | unknown
  deriving DecidableEq, Repr

inductive ProxyStatus where
  | noError | busy | timeout | error
  deriving DecidableEq, Repr

/-! The fields of `struct channel_buffer` in order: `buffer`, `status`, `length`, two dummies. -/

def offsetofBuffer : Nat := 0

def offsetofStatus : Nat := offsetofBuffer + bufferSize

def offsetofLength : Nat := offsetofStatus + 4

def sizeofWord : Nat := 4

def sizeofChannelBuffer : Nat := offsetofLength + 4 + 2 * sizeofWord

/-- The index range of the tables of a channel, `pBdTable` and `pBufferTable`. -/
def InTable (bd : Int) : Prop := 0 ≤ bd ∧ bd < bufferCount

instance (bd : Int) : Decidable (InTable bd) := inferInstanceAs (Decidable (_ ∧ _))

end SoftwarePrototypes.DmaProxy
