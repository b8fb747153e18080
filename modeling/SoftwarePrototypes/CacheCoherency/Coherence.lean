import SoftwarePrototypes.CacheCoherency.Configuration
import SoftwarePrototypes.CacheCoherency.Readbacks

/-! # The coherency tests

Whatever the hardware evicts and fills, and however the two processors and the engines interleave,
a readback is the pattern of its test or the bytes of the cache. It is the pattern when the transfer
was completed or acknowledged and its master is snooped, provided that the RPU is up when it is
called on.
-/

namespace SoftwarePrototypes.CacheCoherency

open Interaction Interaction.Prog Interaction.Runs Interaction.Threads Interaction.Caches
open Interaction.Memory (Byte)

variable {B : Board} {buf : Buffers} {expected : Expected} {tests : List Test}
  {s s' s'' : State} {p : Byte} {m : Master}

/-! ### Both processors -/

/-- The RPU comes to its last loop. -/
theorem steady_up : Steady B buf s { s with rpuUp := true } where
  inv h := by
    refine ⟨h.isr, fun hIsr => ?_, fun hDown => Bool.noConfusion hDown⟩
    obtain ⟨hNone, hMessage, p, hTransferring⟩ := h.pending hIsr
    exact ⟨hNone, hMessage, p, hTransferring.keeps (Keeps.refl B _) rfl rfl⟩
  settings := rfl
  readbacks := rfl
  messages := rfl
  idle hNone := ⟨hNone, rfl⟩
  isr := id
  keeps _ := Keeps.refl B s.cache
  transferring h := h.keeps (Keeps.refl B _) rfl rfl
  job _ hSome := .inl ⟨_, hSome, rfl⟩
  pending _ _ hIsr := .inl hIsr
  untouched _ h := ⟨h.dirty, h.job, h.rpu⟩

theorem AtPoint.off {point : Point} (h : AtPoint point s) (hStarted : point ≠ .reset) :
    s.rpuDCache = false := by
  cases point with
  | reset => exact absurd rfl hStarted
  | enabled => exact h.1
  | cleared | spinning => exact h

theorem atPoint_of_serving {point : Point} (h : Serving B buf s'.rpuUp s)
    (hStarted : point ≠ .reset) (hPoint : AtPoint point s') : AtPoint point s := by
  cases point with
  | reset => exact absurd rfl hStarted
  | enabled => exact ⟨h.rpuDCache, h.rpuUp.trans hPoint.2⟩
  | cleared | spinning => exact h.rpuDCache

/-- What the RPU does next, from one point of its program to another. -/
theorem rpu_again {point : Point} {choice : Choice} {code : Rpu Point} (hInv : Inv B buf s)
    (hPoint : AtPoint point s)
    (hAgain : (boardSystem B).again .rpu point choice s = some (code, s')) :
    (coherency B buf expected tests).Follows (boardSystem B) .rpu code s' ∧ Steady B buf s s' := by
  have hInterrupt : point ≠ .reset →
      (if s.exceptions = true ∧ s.isr &&& s.enabled ≠ 0 then some (interrupt B point, s)
        else none) = some (code, s') →
      (coherency B buf expected tests).Follows (boardSystem B) .rpu code s' ∧
        Steady B buf s s' := by
    intro hStarted hTaken
    split at hTaken
    case isFalse => cases hTaken
    case isTrue =>
      cases hTaken
      have hServing : Serving B buf s.rpuUp s := ⟨hInv, hPoint.off hStarted, rfl⟩
      refine ⟨(interrupt_serves hServing).mono (fun _ _ => id) ?_, Steady.refl B buf s⟩
      rintro point' s₁ ⟨rfl, hLater⟩
      exact ⟨hLater.inv, atPoint_of_serving hLater hStarted hPoint⟩
  cases choice with
  | proceed =>
    cases point with
    | reset =>
      cases hAgain
      refine ⟨(startUp_serves hInv hPoint).mono (fun _ _ => id) ?_, Steady.refl B buf s⟩
      rintro point' s₁ ⟨rfl, hServing⟩
      exact ⟨hServing.inv, hServing.rpuDCache, hServing.rpuUp⟩
    | enabled =>
      cases hAgain
      have hServing : Serving B buf false s := ⟨hInv, hPoint.1, hPoint.2⟩
      refine ⟨(clearExisting_serves hServing).mono (fun _ _ => id) ?_, Steady.refl B buf s⟩
      rintro point' s₁ ⟨rfl, hServing'⟩
      exact ⟨hServing'.inv, hServing'.rpuDCache⟩
    | cleared =>
      cases hAgain
      refine ⟨fun s₁ hMove => ?_, steady_up⟩
      have hOff : s.rpuDCache = false := hPoint
      exact ⟨hMove.inv (steady_up.inv hInv), hMove.rpuDCache.trans hOff⟩
    | spinning => cases hAgain
  | interrupt =>
    cases point with
    | reset => cases hAgain
    | enabled | cleared | spinning => exact hInterrupt (by decide) hAgain
  | _ =>
    cases point with
    | _ => cases hAgain

theorem coherency_sound : (coherency B buf expected tests).Sound (boardSystem B) where
  refl i s := by
    cases i with
    | apu => exact Steady.refl B buf s
    | rpu => exact RpuSteady.refl B buf s
  trans i s s' s'' hMove hMove' := by
    cases i with
    | apu => exact Steady.trans hMove hMove'
    | rpu => exact RpuSteady.trans hMove hMove'
  call i e choice s answer s' hSafe hGuard hPerform j hOther := by
    cases i with
    | apu =>
      cases j with
      | apu => exact absurd rfl hOther
      | rpu =>
        rcases perform_apu hPerform with hServe | ⟨-, rfl⟩
        · exact apu_rpuSteady hSafe.2.2 hGuard hServe
        · exact Same.rpuSteady ⟨rfl, rfl, rfl, rfl, rfl, rfl⟩ rfl
    | rpu =>
      cases j with
      | rpu => exact absurd rfl hOther
      | apu => exact rpu_steady hSafe.1 hSafe.2 hPerform
  again i value choice s code s' hPost hAgain := by
    cases i with
    | apu => cases hAgain
    | rpu =>
      obtain ⟨hFollows, hSteady⟩ := rpu_again hPost.1 hPost.2 hAgain
      refine ⟨hFollows, fun j hOther => ?_⟩
      cases j with
      | rpu => exact absurd rfl hOther
      | apu => exact hSteady
  surroundings choice s s' hMoved j := by
    cases j with
    | apu => exact (hardware_steady hMoved).1
    | rpu => exact (hardware_steady hMoved).2

/-! ### The applications -/

section Applications

variable {app : Application} {cache : Cached Address Address Byte} {settings : Settings}
  {messages : U32 → Words}

/-- The documented effect of the settings, and what is expected of it. A master that should be seen
is snooped once it has been configured. One that should not be is never snooped, and then the line
that is read back is not evicted by chance. -/
structure Snoops (B : Board) (expected : Expected) (app : Application) : Prop where
  seen : ∀ settings m, app.Configured settings m → expected.seen m → B.snooped settings m = true
  unseen : ∀ settings m, expected.unseen m → B.snooped settings m = false
  pinned : ∀ m, expected.unseen m → Pinned B app.buffers

theorem Snoops.ready (h : Snoops B expected app) (settings : Settings) :
    Ready B app.buffers expected app.tests (configured B app.configuration settings) where
  seen flags _ hTest hFlags :=
    h.seen _ _ (configuration_configured B app settings flags hTest hFlags)
  unseen := h.unseen
  pinned := h.pinned

theorem dmaTests_plain : ∀ test ∈ app.dmaTests, test.Plain ∧ test.master ≠ .rpu := by
  have hA53 : ∀ test ∈ A53.dmaTests, test.Plain ∧ test.master ≠ .rpu := by decide
  have hA72 : ∀ test ∈ A72.dmaTests, test.Plain ∧ test.master ≠ .rpu := by decide
  cases app with
  | a53 => exact hA53
  | a72 ocm => exact hA72

/-- From the configuration on, with nothing printed but text. -/
theorem tests_run (hSnoops : Snoops B expected app) {σ : Settings}
    (h : Calm B app.buffers expected σ [] s) :
    Runs B app.buffers expected app.tests
      ((coherency B app.buffers expected app.tests).post .apu)
      (setUp app.configuration >>= fun mask => app.dmaTests.forM (dmaTest app.buffers) >>=
        fun _ => rpuTest app.buffers mask rpuCoherencyTest) s := by
  have hNone : s.readbacks = [] := List.forall₂_nil_right_iff.mp h.right
  apply setUp_runs h.inv h.quiet hNone
  intro s₁ hInv hQuiet hNone₁ hSettings
  rw [configuration_mask]
  have hReady := hSnoops.ready s.settings
  rw [configured, ← hSettings] at hReady
  have hCalm : Calm B app.buffers expected s₁.settings [] s₁ :=
    ⟨hInv, hQuiet, ⟨_, rfl⟩, hNone₁ ▸ .nil⟩
  apply Always.bind (Steady.refl B app.buffers)
  apply (dmaTests_runs hCalm hReady dmaTests_plain).mono fun _ _ => id
  intro _ s₂ hCalm₂
  exact (rpuTest_runs hCalm₂ hReady (List.prefix_refl _) (by decide) rfl)

theorem main_runs (hSnoops : Snoops B expected app) {σ : Settings}
    (h : Calm B app.buffers expected σ [] s) :
    Runs B app.buffers expected app.tests
      ((coherency B app.buffers expected app.tests).post .apu) app.main s := by
  have hNil : [] <+: app.tests := List.nil_prefix
  cases app with
  | a53 =>
    apply print_runs h hNil (by decide)
    intro s₁ h
    apply print_runs h hNil (by decide)
    intro s₂ h
    apply print_runs h hNil (by decide)
    intro s₃ h
    exact tests_run hSnoops h
  | a72 ocm =>
    have hLocal : ∀ s, Quiet s → Local B (Application.a72 ocm).buffers (.sleep 1) s :=
      fun _ _ => trivial
    apply calm_idle h hNil hLocal id
    rintro s₁ answer s₂ h - - ⟨⟩
    apply print_runs h hNil (by decide)
    intro s₃ h
    apply print_runs h hNil (by decide)
    intro s₄ h
    apply print_runs h hNil (by decide)
    intro s₅ h
    apply print_runs h hNil (by decide)
    intro s₆ h
    apply print_runs h hNil (by decide)
    intro s₇ h
    exact tests_run hSnoops h

theorem started_holds (hSnoops : Snoops B expected app) :
    (coherency B app.buffers expected app.tests).Holds (boardSystem B)
      (started app.main cache settings messages) := by
  intro i
  cases i with
  | apu => exact main_runs hSnoops ⟨inv_of_clear rfl, ⟨rfl, rfl⟩, ⟨_, rfl⟩, .nil⟩
  | rpu => exact fun s' hMove => ⟨hMove.inv (inv_of_clear rfl), hMove.rpuUp⟩

/-- The readbacks of as many of the tests are right; of all of them once the APU has returned. -/
structure Tested (expected : Expected) (tests : List Test)
    (C : Config CallAnswer Result State) : Prop where
  printed : Printed expected tests C.shared.readbacks
  all : ∀ value, C.code .apu = .ret value →
    List.Forall₂ (Right expected) C.shared.readbacks tests

theorem tested_of_holds {C : Config CallAnswer Result State}
    (h : (coherency B buf expected tests).Holds (boardSystem B) C) : Tested expected tests C := by
  have hHere := h .apu
  constructor
  · cases hCode : C.code .apu with
    | ret value =>
      rw [hCode] at hHere
      exact ⟨tests, List.prefix_refl tests, (hHere C.shared (Steady.refl _ _ _)).2⟩
    | call e next =>
      rw [hCode] at hHere
      exact (hHere C.shared (Steady.refl _ _ _)).1.2.1
  · intro value hCode
    rw [hCode] at hHere
    exact (hHere C.shared (Steady.refl _ _ _)).2

/-- Whatever the caches, the engines and the two processors do, the readbacks are right: each is the
pattern of its test or the bytes of the cache, and tells a master that is snooped from one that is
not. -/
theorem readbacks_right (hSnoops : Snoops B expected app) {labels : List (Label Cpu Choice)}
    {final : Config CallAnswer Result State}
    (hRun : run (step (boardSystem B)) (started app.main cache settings messages) labels =
      some final)
    (hUp : Along (step (boardSystem B)) (AtCall Up) (started app.main cache settings messages)
      labels) : Tested expected app.tests final :=
  tested_of_holds (coherency_sound.run (started_holds hSnoops) hUp hRun)

end Applications

/-! ### A whole run -/

/-- Lines of 64 bytes, an interconnect that snoops every master, and three targets of interrupts. -/
def zcu102 : Board where
  line a := a &&& ~~~63
  mayEvict _ := true
  snooped _ _ := true
  apuMask := 0x1
  rpuMask := 0x100
  allMask := 0x0F0F0301
  apuTargets := [0x1, 0x100, 0x200]
  rpuTargets := [0x1, 0x100, 0x200]
  rpu_second := rfl
  apu_mem := by decide
  rpuTargets_nodup := by decide
  apuMask_ne := by decide
  rpuMask_ne := by decide
  apart := by simp

def a53Started : Config CallAnswer Result State :=
  started A53.main ⟨fun _ => 0, fun _ => none⟩
    ⟨fun _ => 0, fun _ => 0, 0, fun _ _ => 0, false, zdmaDataConfig 0, (0, 0)⟩ fun _ => (0, 0, 0)

def calls (i : Cpu) (n : Nat) : List (Label Cpu Choice) := List.replicate n (.call i .proceed)

def moveBytes : List (Label Cpu Choice) :=
  (List.range bufferByteSize).flatMap
    fun i => [.surroundings (.fetch i), .surroundings (.deposit i)]

/-- A test of an engine; the destination line is evicted before the first byte arrives. -/
def dmaRun : List (Label Cpu Choice) :=
  calls .apu 197 ++ .surroundings (.evict 0x60000) :: moveBytes ++
    .surroundings .complete :: calls .apu 3

def rpuEnables : List (Label Cpu Choice) := .again .rpu .proceed :: calls .rpu 9

def rpuClears : List (Label Cpu Choice) :=
  .again .rpu .proceed :: calls .rpu 1 ++ [.again .rpu .proceed]

def engineTests : List (Label Cpu Choice) := calls .apu 19 ++ dmaRun ++ dmaRun ++ dmaRun

def a53Run : List (Label Cpu Choice) :=
  rpuEnables ++ rpuClears ++ engineTests ++ calls .apu 198 ++
    .again .rpu .interrupt :: calls .rpu 131 ++ calls .apu 3

/-- The four tests of the A53, all of them passed. -/
theorem readbacks_right_a53 : ∃ final, run (step (boardSystem zcu102)) a53Started a53Run =
    some final ∧ Tested ⟨fun _ => True, fun _ => False⟩ (Application.a53).tests final := by
  have hSome : (run (step (boardSystem zcu102)) a53Started a53Run).isSome = true := by
    decide +kernel
  have hUp : Along (step (boardSystem zcu102)) (AtCall Up) a53Started a53Run := by
    decide +kernel
  obtain ⟨final, hRun⟩ := Option.isSome_iff_exists.mp hSome
  have hSnoops : Snoops zcu102 ⟨fun _ => True, fun _ => False⟩ .a53 :=
    ⟨fun _ _ _ _ => rfl, fun _ _ hNone => hNone.elim, fun _ hNone => hNone.elim⟩
  exact ⟨final, hRun, readbacks_right hSnoops hRun hUp⟩

/-- An RPU that is called on before it clears the existing interrupts acknowledges without a
copy. -/
example : (run (step (boardSystem zcu102)) a53Started (rpuEnables ++ engineTests ++
    calls .apu 198 ++ rpuClears ++ calls .apu 3)).map (fun C => C.shared.readbacks.getLast?) =
      some (some ⟨true, [0xFF]⟩) := by
  decide +kernel

end SoftwarePrototypes.CacheCoherency
