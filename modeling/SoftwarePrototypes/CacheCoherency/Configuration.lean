import SoftwarePrototypes.CacheCoherency.Programs

/-! # What the configuration leaves behind

Each configuration function leaves the settings that its master needs, and no later one undoes them.
-/

namespace SoftwarePrototypes.CacheCoherency

open Interaction Interaction.Prog

namespace A53

/-- Snooping is on, and the buffers are outer cacheable. -/
structure Snooping (buf : Buffers) (s : Settings) : Prop where
  control : s.register snoopControlS3 = enableSnoop
  src : s.tlb (tlbSection buf.src) = normWbOutCache
  dst : s.tlb (tlbSection buf.dst) = normWbOutCache

def Configured (buf : Buffers) (s : Settings) : Master → Prop
  | .fpdCdma => Snooping buf s ∧ s.gpio 0 hpcChannel = axiAttr protUpSD cacheOaM
  | .lpdCdma => Snooping buf s ∧ s.gpio 0 lpdChannel = axiAttr protUpSD cacheOaM
  | .zdma => Snooping buf s ∧ s.zdmaScatterGather = false ∧
      s.dataConfig = zdmaDataConfig cacheOaM ∧ s.register slcrAdma = 0 ∧ s.zdmaCoherent = (1, 1)
  | .rpu => Snooping buf s ∧ s.register rpu0Cfg &&& rpuCoherent = rpuCoherent
  | .cci0Cdma | .cci1Cdma => False

end A53

namespace A72

structure Snooping (buf : Buffers) (s : Settings) : Prop where
  control : s.register snoopControlSi4 = enableSnoop
  src : s.tlb (tlbSection buf.src) = normWbOutCache
  dst : s.tlb (tlbSection buf.dst) = normWbOutCache

def Configured (buf : Buffers) (s : Settings) : Master → Prop
  | .fpdCdma => Snooping buf s ∧ s.gpio 0 fpdChannel = axiAttr protUpSD cacheOaM ∧
      s.register plAceliteFpdTz = 0
  | .lpdCdma => Snooping buf s ∧ s.gpio 0 lpdChannel = axiAttr protUpSD cacheOaM ∧
      s.register plAxiLpdTz = 0 ∧ s.register plAxiLpdRoute = 1
  | .cci0Cdma => Snooping buf s ∧ s.gpio 1 cci0Channel = axiAttr protUpSD cacheOaM
  | .cci1Cdma => Snooping buf s ∧ s.gpio 1 cci1Channel = axiAttr protUpSD cacheOaM
  | .zdma => Snooping buf s ∧ s.zdmaScatterGather = false ∧
      s.dataConfig = zdmaDataConfig cacheOaM ∧ s.register dmaCh0Tz = 0 ∧
      s.register dmaRoute = 1 ∧ s.zdmaCoherent = (1, 1)
  | .rpu => Snooping buf s ∧ s.register rpu0Route = 1

end A72

variable {B : Board} {buf : Buffers}

/-- The settings once the configuration has run. -/
def configured (B : Board) (prog : Configuration U32) (s : Settings) : Settings :=
  (exec (configure B) prog s).2

theorem or_and_self (x y : U32) : (x ||| y) &&& y = y := by
  ext i
  simp only [BitVec.getElem_and, BitVec.getElem_or, Bool.and_eq_right_iff_imp, Bool.or_eq_true]
  exact .inr

section A53

variable (B buf) (s : Settings) (flags : U32 × U32)

theorem A53.configured_tlb : (configured B (A53.configuration buf) s).tlb =
    Function.update s.tlb (tlbSection buf.dst) normWbOutCache := rfl

theorem A53.snooping :
    A53.Snooping buf { configured B (A53.configuration buf) s with zdmaCoherent := flags } where
  control := rfl
  src := by
    dsimp only
    rw [A53.configured_tlb B, buf.sameSection, Function.update_self]
  dst := by
    dsimp only
    rw [A53.configured_tlb B, Function.update_self]

theorem A53.configuration_configured {test : Test}
    (hTest : test ∈ A53.dmaTests ++ [rpuCoherencyTest])
    (hFlags : test.master = .zdma → flags = (1, 1)) : A53.Configured buf
      { configured B (A53.configuration buf) s with zdmaCoherent := flags } test.master := by
  have hSnooping := A53.snooping B buf s flags
  simp only [A53.dmaTests, List.cons_append, List.nil_append, List.mem_cons,
    List.not_mem_nil, or_false] at hTest
  rcases hTest with rfl | rfl | rfl | rfl
  · exact ⟨hSnooping, rfl⟩
  · exact ⟨hSnooping, rfl⟩
  · exact ⟨hSnooping, rfl, rfl, rfl, hFlags rfl⟩
  · exact ⟨hSnooping, or_and_self _ _⟩

end A53

section A72

variable (B buf) (s : Settings) (flags : U32 × U32)

theorem A72.configured_tlb : (configured B (A72.configuration buf) s).tlb =
    Function.update s.tlb (tlbSection buf.dst) normWbOutCache := rfl

theorem A72.snooping :
    A72.Snooping buf { configured B (A72.configuration buf) s with zdmaCoherent := flags } where
  control := rfl
  src := by
    dsimp only
    rw [A72.configured_tlb B, buf.sameSection, Function.update_self]
  dst := by
    dsimp only
    rw [A72.configured_tlb B, Function.update_self]

theorem A72.configuration_configured {test : Test}
    (hTest : test ∈ A72.dmaTests ++ [rpuCoherencyTest])
    (hFlags : test.master = .zdma → flags = (1, 1)) : A72.Configured buf
      { configured B (A72.configuration buf) s with zdmaCoherent := flags } test.master := by
  have hSnooping := A72.snooping B buf s flags
  simp only [A72.dmaTests, List.cons_append, List.nil_append, List.mem_cons,
    List.not_mem_nil, or_false] at hTest
  rcases hTest with rfl | rfl | rfl | rfl | rfl | rfl
  · exact ⟨hSnooping, rfl, rfl⟩
  · exact ⟨hSnooping, rfl, rfl, rfl⟩
  · exact ⟨hSnooping, rfl⟩
  · exact ⟨hSnooping, rfl⟩
  · exact ⟨hSnooping, rfl, rfl, rfl, rfl, hFlags rfl⟩
  · exact ⟨hSnooping, rfl⟩

end A72

/-! ### The two examples -/

/-- The applications, the second with the buffers of either of its memory tests. -/
inductive Application where
  | a53
  | a72 (ocm : Bool)
  deriving DecidableEq

namespace Application

def buffers : Application → Buffers
  | .a53 => A53.ddr
  | .a72 ocm => if ocm then A72.ocm else A72.ddr

def configuration : Application → Configuration U32
  | .a53 => A53.configuration A53.ddr
  | .a72 ocm => A72.configuration (Application.a72 ocm).buffers

def main : Application → Apu Unit
  | .a53 => A53.main
  | .a72 ocm => A72.main (Application.a72 ocm).buffers

def dmaTests : Application → List Test
  | .a53 => A53.dmaTests
  | .a72 _ => A72.dmaTests

def tests (app : Application) : List Test := app.dmaTests ++ [rpuCoherencyTest]

def Configured : Application → Settings → Master → Prop
  | .a53 => A53.Configured A53.ddr
  | .a72 ocm => A72.Configured (Application.a72 ocm).buffers

end Application

theorem configuration_mask (B : Board) (app : Application) (s : Settings) :
    (exec (configure B) app.configuration s).1 = B.rpuMask := by
  cases app with
  | a53 => exact B.rpu_second
  | a72 ocm => exact B.rpu_second

theorem configuration_configured (B : Board) (app : Application) (s : Settings)
    (flags : U32 × U32) {test : Test} (hTest : test ∈ app.tests)
    (hFlags : test.master = .zdma → flags = (1, 1)) :
    app.Configured { configured B app.configuration s with zdmaCoherent := flags } test.master := by
  cases app with
  | a53 => exact A53.configuration_configured B A53.ddr s flags hTest hFlags
  | a72 ocm => exact A72.configuration_configured B _ s flags hTest hFlags

end SoftwarePrototypes.CacheCoherency
