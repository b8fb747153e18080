import SoftwarePrototypes.DmaProxy.Driver
import SoftwarePrototypes.Interaction.Runs

/-! # One channel in use

User requests on a channel, issued one at a time, with the engine and the stores of user space
into the mapped length words coming in at any step of a request.
-/

namespace SoftwarePrototypes.DmaProxy

open Interaction

structure Pages where
  first : Nat
  count : Nat
  deriving DecidableEq

def pageAlign (pageSize size : Nat) : Nat := (size + pageSize - 1) / pageSize * pageSize

/-- `dma_mmap_coherent` for a request of `count` pages at page offset `pgoff`: refused when it
does not fit in `size`, the argument passed for the size of the allocation. -/
def dmaMmapCoherent (pageSize physAddr size count pgoff : Nat) : Option Pages :=
  let available := pageAlign pageSize size / pageSize
  if available ≤ pgoff ∨ available - pgoff < count then none
  else some ⟨physAddr / pageSize + pgoff, count⟩

/-- `mmap` of the driver passes the length of the request, `vm_end - vm_start`. -/
def Driver.mmap (d : Driver) (pageSize count pgoff : Nat) : Option Pages :=
  dmaMmapCoherent pageSize d.bufferPhysAddr (count * pageSize) count pgoff

/-- The module parameter `trace` and the page size of the kernel. -/
structure Platform where
  trace : Bool
  pageSize : Nat
  pageSize_pos : 0 < pageSize

/-- `arg` is the argument of the latest request. -/
structure Session where
  driver : Driver
  current : Program Int
  arg : Int

inductive Label where
  | ioctl (cmd : Cmd) (arg : Int)
  | mmap (count pgoff : Nat)
  | writeLength (bd : Int) (length : BitVec 32)
  | advance (reply : Reply)
  | engine (event : EngineEvent)

def Session.step (platform : Platform) (w : Session) : Label → Option Session
  | .ioctl cmd arg =>
    match w.current with
    | .ret _ => some { w with current := DmaProxy.ioctl platform.trace cmd arg, arg := arg }
    | .call _ _ => none
  | .mmap _ _ => some w
  | .writeLength bd length =>
    some { w with driver := w.driver.updateBuffer bd fun b => { b with length := length } }
  | .advance reply =>
    match w.current with
    | .ret _ => none
    | .call e next => (perform e reply w.driver).map fun (answer, d) =>
      { w with driver := d, current := next answer }
  | .engine event => (w.driver.engineStep event).map fun d => { w with driver := d }

/-- The channel before its first ioctl. The table of BDs comes from `devm_kmalloc` and holds
anything; the engine has accepted nothing. -/
def Session.opened (pBdTable : Int → ProxyBd) (pBufferTable : Int → ChannelBuffer)
    (bufferPhysAddr : Nat) : Session where
  driver := {
    pBufferTable := pBufferTable
    bufferPhysAddr := bufferPhysAddr
    pBdTable := pBdTable
    bdindex := 0
    transfers := []
    issued := 0
    completed := 0
    starts := [] }
  current := .ret 0
  arg := 0

end SoftwarePrototypes.DmaProxy
