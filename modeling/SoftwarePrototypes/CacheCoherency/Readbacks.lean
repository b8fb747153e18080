import Mathlib.Data.List.Forall2
import SoftwarePrototypes.CacheCoherency.Requests

/-! # How the APU tests a master

From the initialization of the buffers to the readback, through whatever the hardware and the RPU do
in between.
-/

namespace SoftwarePrototypes.CacheCoherency

open Interaction Interaction.Prog Interaction.Runs Interaction.Threads Interaction.Caches
open Interaction.Memory (Byte)

variable {B : Board} {buf : Buffers} {expected : Expected} {tests : List Test}
  {s s' s'' : State} {p : Byte} {m : Master}

section Apu

variable {α : Type} {post : α → State → Prop} {σ : Settings} {done : List Test} {test : Test}

abbrev Runs (B : Board) (buf : Buffers) (expected : Expected) (tests : List Test)
    (post : α → State → Prop) (prog : Apu α) (s : State) : Prop :=
  Always (Steady B buf) ((coherency B buf expected tests).sem (boardSystem B) .apu)
    ((coherency B buf expected tests).safe .apu) post prog s

/-- The calls that a driver may refuse or give up. -/
def MayFail : ApuOp → Prop
  | .simpleTransfer .. | .zdmaStart _ | .pollForAck .. => True
  | _ => False

theorem perform_apu {e : ApuOp} {choice : Choice} {answer : ApuAnswer e}
    (h : (boardSystem B).perform .apu e choice s = some (answer, s')) :
    apuServe B e s = some (answer, s') ∨ MayFail e ∧ s' = { s with finished := false } := by
  cases choice with
  | proceed => exact .inl h
  | refuse =>
    cases e with
    | simpleTransfer m src dst bytes =>
      cases h
      exact .inr ⟨trivial, rfl⟩
    | zdmaStart data =>
      cases h
      exact .inr ⟨trivial, rfl⟩
    | _ => cases h
  | timeout =>
    cases e with
    | pollForAck mask timeOutCount =>
      cases h
      exact .inr ⟨trivial, rfl⟩
    | _ => cases h
  | _ => cases h

/-- A step that is taken while all is quiet. -/
theorem rpuSteady_quiet (hQuiet : Quiet s) (hInv : Inv B buf s → Inv B buf s')
    (hDCache : s'.rpuDCache = s.rpuDCache) (hUp : s'.rpuUp = s.rpuUp) : RpuSteady B buf s s' :=
  have hNot : s.isr ≠ B.apuMask := apuMask_ne_zero hQuiet.isr
  ⟨hInv, hDCache, hUp, fun _ h => absurd h hNot, fun _ h => absurd h hNot,
    fun _ h => absurd h hNot⟩

theorem inv_of_clear (hIsr : s.isr = 0) : Inv B buf s :=
  ⟨.inl hIsr, fun hPending => absurd hPending (apuMask_ne_zero hIsr), fun _ => hIsr⟩

/-- What a call of the APU leaves for the RPU to rely on. -/
theorem apu_rpuSteady {e : ApuOp} {answer : ApuAnswer e} (hLocal : Local B buf e s)
    (hUp : Up .apu e s) (h : apuServe B e s = some (answer, s')) : RpuSteady B buf s s' := by
  cases e with
  | load a =>
    cases h
    exact (steady_cache (keeps_fill _ _) fun _ hDirty => hDirty.fill _).2
  | awaitIdle m =>
    simp only [apuServe] at h
    split at h
    · cases h
      exact RpuSteady.refl B buf s
    · cases h
  | pollForAck mask timeOutCount =>
    simp only [apuServe] at h
    split at h
    · cases h
      exact Same.rpuSteady ⟨rfl, rfl, rfl, rfl, rfl, rfl⟩ rfl
    · cases h
  | sleep seconds | xilPrintf format args =>
    cases h
    exact Same.rpuSteady ⟨rfl, rfl, rfl, rfl, rfl, rfl⟩ rfl
  | triggerIpi mask =>
    obtain ⟨hQuiet, hPending⟩ := hLocal
    cases h
    refine rpuSteady_quiet hQuiet (fun hInv => ?_) rfl rfl
    have hRun : s.rpuUp = true := hUp
    obtain ⟨hNone, hMessage, p, hTransferring⟩ := hPending
    refine ⟨?_, fun _ => ⟨hNone, hMessage, p, hTransferring.keeps (Keeps.refl B _) rfl rfl⟩,
      fun hDown => absurd (hRun.symm.trans hDown) (by decide)⟩
    dsimp only
    split
    · exact .inl hQuiet.isr
    · rw [hQuiet.isr]
      exact .inr BitVec.zero_or
  | setUp e | store a v | dCacheFlushRange a bytes | simpleTransfer m src dst bytes | zdmaStart data
  | writeMessage mask words =>
    have hQuiet : Quiet s := hLocal
    cases h
    exact rpuSteady_quiet hQuiet (fun _ => inv_of_clear hQuiet.isr) rfl rfl

theorem apu_op {e : ApuOp} {rest : ApuAnswer e → Apu α} (hInv : Inv B buf s)
    (hPrinted : Printed expected tests s.readbacks)
    (hLocal : ∀ s', Steady B buf s s' → Local B buf e s')
    (hNext : ∀ s' answer s'', Steady B buf s s' → Inv B buf s'' →
      apuServe B e s' = some (answer, s'') ∨ MayFail e ∧ s'' = { s' with finished := false } →
      Runs B buf expected tests post (rest answer) s'') :
    Runs B buf expected tests post (apuOp e >>= rest) s := by
  apply Always.ask_bind
  intro s' hMove
  refine ⟨⟨hMove.inv hInv, hMove.readbacks ▸ hPrinted, hLocal s' hMove⟩, ?_⟩
  rintro answer s'' ⟨hUp, choice, hPerform⟩
  have hServe := perform_apu hPerform
  apply hNext s' answer s'' hMove _ hServe
  rcases hServe with hDone | ⟨-, rfl⟩
  · exact (apu_rpuSteady (hLocal s' hMove) hUp hDone).inv (hMove.inv hInv)
  · have hSame : Same s' { s' with finished := false } := ⟨rfl, rfl, rfl, rfl, rfl, rfl⟩
    exact hSame.inv (hMove.inv hInv)

/-- Between two tests. The settings are those of the configuration, up to what `XZDma_Start`
sets. -/
structure Calm (B : Board) (buf : Buffers) (expected : Expected) (σ : Settings)
    (done : List Test) (s : State) : Prop where
  inv : Inv B buf s
  quiet : Quiet s
  settings : ∃ flags, s.settings = { σ with zdmaCoherent := flags }
  right : List.Forall₂ (Right expected) s.readbacks done

theorem Calm.moved (h : Calm B buf expected σ done s) (hMove : Steady B buf s s') :
    Calm B buf expected σ done s' where
  inv := hMove.inv h.inv
  quiet := h.quiet.moved hMove
  settings := hMove.settings ▸ h.settings
  right := hMove.readbacks ▸ h.right

theorem Calm.printed (h : Calm B buf expected σ done s) (hDone : done <+: tests) :
    Printed expected tests s.readbacks := ⟨done, hDone, h.right⟩

/-- A call that leaves the cache and all masters alone. -/
theorem calm_idle {e : ApuOp} {rest : ApuAnswer e → Apu α} (h : Calm B buf expected σ done s)
    (hDone : done <+: tests) (hLocal : ∀ s, Quiet s → Local B buf e s) (hFail : ¬ MayFail e)
    (hNext : ∀ s' answer s'', Calm B buf expected σ done s' → Steady B buf s s' →
      Inv B buf s'' → apuServe B e s' = some (answer, s'') →
      Runs B buf expected tests post (rest answer) s'') :
    Runs B buf expected tests post (apuOp e >>= rest) s := by
  apply apu_op h.inv (h.printed hDone)
  · exact fun s' hMove => hLocal s' (h.quiet.moved hMove)
  · intro s' answer s'' hMove hInv hServe
    rcases hServe with hServed | ⟨hMay, -⟩
    · exact hNext s' answer s'' (h.moved hMove) hMove hInv hServed
    · exact absurd hMay hFail

theorem Calm.withCache (h : Calm B buf expected σ done s) (cache : Cached Address Address Byte) :
    Calm B buf expected σ done { s with cache } :=
  ⟨inv_of_clear h.quiet.isr, ⟨h.quiet.job, h.quiet.isr⟩, h.settings, h.right⟩

theorem calm_store {a : Address} {v : Byte} {rest : Unit → Apu α}
    (h : Calm B buf expected σ done s) (hDone : done <+: tests)
    (hNext : ∀ s' : State, Keeps B s.cache s'.cache →
      Calm B buf expected σ done { s' with cache := s'.cache.store B.line a v } →
      Runs B buf expected tests post (rest ()) { s' with cache := s'.cache.store B.line a v }) :
    Runs B buf expected tests post (apuOp (.store a v) >>= rest) s := by
  apply calm_idle h hDone (fun _ => id) id
  intro s' answer s'' hCalm hMove _ hServe
  cases hServe
  exact hNext s' (hMove.keeps h.quiet) (hCalm.withCache _)

theorem evictions_keep (a : Address) (l : List Nat) (cache : Cached Address Address Byte) :
    Keeps B cache (l.foldl (fun cache i => cache.evict B.line (B.line (offset a i))) cache) := by
  induction l generalizing cache with
  | nil => exact Keeps.refl B cache
  | cons i l ih => exact (keeps_evict cache _).trans (ih _)

theorem flushRange_keeps (a : Address) (bytes : Nat) (cache : Cached Address Address Byte) :
    Keeps B cache (Cached.flushRange B a bytes cache) := evictions_keep a (List.range bytes) cache

theorem flushRange_everywhere {V : Byte → Prop} {a : Address} {bytes i : Nat} (hi : i < bytes)
    {cache : Cached Address Address Byte} (h : cache.Shows B.line V (offset a i)) :
    (Cached.flushRange B a bytes cache).Everywhere B.line V (offset a i) := by
  obtain ⟨before, after, hRange⟩ := List.append_of_mem (List.mem_range.mpr hi)
  rw [Cached.flushRange, hRange, List.foldl_append, List.foldl_cons]
  exact (evictions_keep a after _).everywhere ((evictions_keep a before cache).shows h).evicted

/-- The source buffer holds the pattern. -/
structure Filled (B : Board) (buf : Buffers) (expected : Expected) (σ : Settings)
    (done : List Test) (p : Byte) (s : State) : Prop extends Calm B buf expected σ done s where
  src : ∀ i < bufferByteSize, s.cache.Everywhere B.line (· = p) (offset buf.src i)

theorem lt_of_prefix {n i : Nat} {l rest : List Nat} (h : List.range n = l ++ i :: rest) :
    ∀ j ∈ l ++ [i], j < n := by
  intro j hj
  rw [← List.mem_range, h, List.append_cons]
  exact List.mem_append_left rest hj

theorem initBuffers_runs (h : Calm B buf expected σ done s) (hDone : done <+: tests) (p : Byte) :
    Runs B buf expected tests (fun _ => Filled B buf expected σ done p) (initBuffers buf p) s := by
  let I (l : List Nat) (s : State) : Prop := Calm B buf expected σ done s ∧
    ∀ i ∈ l, s.cache.Shows B.line (· = p) (offset buf.src i)
  have hMoved : ∀ l s s', I l s → Steady B buf s s' → I l s' := fun l s s' hHere hMove =>
    ⟨hHere.1.moved hMove, fun i hi => (hMove.keeps hHere.1.quiet).shows (hHere.2 i hi)⟩
  apply Always.bind (Steady.refl B buf)
  apply Always.mono (fun _ _ => id) _ (Always.forM_split (I := I) (Steady.refl B buf) hMoved _ _)
  · -- After the loop, the buffers are flushed.
    rintro _ s₁ ⟨hCalm, hShows⟩
    apply calm_idle hCalm hDone (fun _ => id) id
    rintro s₂ answer s₃ hCalm₂ hMove₂ - ⟨⟩
    have hSrc : ∀ i < bufferByteSize, (Cached.flushRange B buf.src bufferByteSize
        s₂.cache).Everywhere B.line (· = p) (offset buf.src i) := fun i hi =>
      flushRange_everywhere hi ((hMove₂.keeps hCalm.quiet).shows (hShows i (List.mem_range.mpr hi)))
    have hCalm₃ := hCalm₂.withCache (Cached.flushRange B buf.src bufferByteSize s₂.cache)
    rw [← bind_ret (apuOp _)]
    apply calm_idle hCalm₃ hDone (fun _ => id) id
    rintro s₄ answer s₅ hCalm₄ hMove₄ - ⟨⟩ s₆ hMove₆
    have hCalm₅ := hCalm₄.withCache (Cached.flushRange B buf.dst bufferByteSize s₄.cache)
    refine ⟨hCalm₅.moved hMove₆, fun i hi => (hMove₆.keeps hCalm₅.quiet).everywhere ?_⟩
    exact (flushRange_keeps _ _ _).everywhere ((hMove₄.keeps hCalm₃.quiet).everywhere (hSrc i hi))
  · intro l i rest s hList hHere
    have hRange := lt_of_prefix hList
    apply calm_store hHere.1 hDone
    intro s₁ hKeeps₁ hCalm₁
    rw [← bind_ret (apuOp _)]
    apply calm_store hCalm₁ hDone
    intro s₂ hKeeps₂ hCalm₂ s₃ hMove₃
    apply hMoved _ _ _ _ hMove₃
    refine ⟨hCalm₂, fun j hj => ?_⟩
    have hShows : ({ s₁ with cache := s₁.cache.store B.line (offset buf.src i) p }
        : State).cache.Shows B.line (· = p) (offset buf.src j) := by
      rcases List.mem_append.mp hj with hBefore | hHere'
      · exact (hKeeps₁.shows (hHere.2 j hBefore)).store fun _ => rfl
      · obtain rfl := List.mem_singleton.mp hHere'
        exact (Cached.dirty_store _ _ _).shows rfl
    apply (hKeeps₂.shows hShows).store
    exact fun hSame => absurd hSame (buf.apart (hRange j hj) (hRange i (by simp)))
  · exact ⟨h, fun i hi => (List.not_mem_nil hi).elim⟩

/-- The destination buffer is full of bytes of the cache. -/
structure Loaded (B : Board) (buf : Buffers) (expected : Expected) (σ : Settings)
    (done : List Test) (p : Byte) (s : State) : Prop extends Filled B buf expected σ done p s where
  dst : ∀ i < bufferByteSize, s.cache.Shows B.line (· = 0xFF) (offset buf.dst i)
  dirty : Pinned B buf → DirtyCopy B buf s

/-- No master is at work on a dirty line. -/
theorem Quiet.untouched (h : Quiet s) (hDirty : DirtyCopy B buf s) : Untouched B buf s := by
  refine ⟨hDirty, fun job hMem => ?_, fun hBusy => absurd h.isr hBusy⟩
  rw [h.job] at hMem
  exact (Option.not_mem_none job hMem).elim

theorem Filled.moved (h : Filled B buf expected σ done p s) (hMove : Steady B buf s s') :
    Filled B buf expected σ done p s' :=
  ⟨h.toCalm.moved hMove, fun i hi => (hMove.keeps h.quiet).everywhere (h.src i hi)⟩

theorem Loaded.moved (h : Loaded B buf expected σ done p s) (hMove : Steady B buf s s') :
    Loaded B buf expected σ done p s' :=
  ⟨h.toFilled.moved hMove, fun i hi => (hMove.keeps h.quiet).shows (h.dst i hi),
    fun hPinned => (hMove.untouched hPinned (h.quiet.untouched (h.dirty hPinned))).dirty⟩

theorem Loaded.transferring (h : Loaded B buf expected σ done p s) : Transferring B buf p s := by
  refine ⟨h.src, fun i hi => (h.dst i hi).mono fun _ => .inr, ?_⟩
  rw [h.quiet.job]
  exact fun job hMem => (Option.not_mem_none job hMem).elim

theorem writeCache_runs (h : Filled B buf expected σ done p s) (hDone : done <+: tests) :
    Runs B buf expected tests (fun _ => Loaded B buf expected σ done p) (writeCache buf) s := by
  let I (l : List Nat) (s : State) : Prop := Filled B buf expected σ done p s ∧
    (∀ i ∈ l, s.cache.Shows B.line (· = 0xFF) (offset buf.dst i)) ∧
      (Pinned B buf → 0 ∈ l → DirtyCopy B buf s)
  have hMoved : ∀ l s s', I l s → Steady B buf s s' → I l s' := by
    rintro l s s' ⟨hFilled, hShows, hDirty⟩ hMove
    refine ⟨hFilled.moved hMove, fun i hi => (hMove.keeps hFilled.quiet).shows (hShows i hi), ?_⟩
    exact fun hPinned hZero =>
      (hMove.untouched hPinned (hFilled.quiet.untouched (hDirty hPinned hZero))).dirty
  apply Always.mono (fun _ _ => id) _ (Always.forM_split (I := I) (Steady.refl B buf) hMoved _ _)
  · rintro _ s' ⟨hFilled, hShows, hDirty⟩
    exact ⟨hFilled, fun i hi => hShows i (List.mem_range.mpr hi),
      fun hPinned => hDirty hPinned (List.mem_range.mpr (by decide))⟩
  · rintro l i rest s hList hHere
    obtain ⟨hFilled, hShows, hDirty⟩ := hHere
    have hi : i < bufferByteSize := lt_of_prefix hList i (by simp)
    rw [← bind_ret (apuOp _)]
    apply calm_idle hFilled.toCalm hDone (fun _ => id) id
    rintro s₁ answer s₂ hCalm₁ hMove₁ - ⟨⟩ s₃ hMove₃
    apply hMoved _ _ _ _ hMove₃
    have hFilled₁ := hFilled.moved hMove₁
    refine ⟨⟨hCalm₁.withCache _, fun j hj => (hFilled₁.src j hj).store (buf.apart hj hi)⟩, ?_, ?_⟩
    · intro j hj
      rcases List.mem_append.mp hj with hBefore | hHere
      · exact ((hMove₁.keeps hFilled.quiet).shows (hShows j hBefore)).store fun _ => rfl
      · obtain rfl := List.mem_singleton.mp hHere
        exact (Cached.dirty_store _ _ _).shows rfl
    · intro hPinned hZero
      rcases List.mem_append.mp hZero with hBefore | hHere
      · have hDirty₁ : DirtyCopy B buf s₁ :=
          (hMove₁.untouched hPinned (hFilled.quiet.untouched (hDirty hPinned hBefore))).dirty
        exact Cached.Dirty.store hDirty₁ fun _ => rfl
      · obtain rfl := List.mem_singleton.mp hHere
        exact Cached.dirty_store _ _ _
  · exact ⟨h, fun i hi => (List.not_mem_nil hi).elim,
      fun _ hZero => (List.not_mem_nil hZero).elim⟩

/-- The destination buffer shows the pattern. -/
def Shown (B : Board) (buf : Buffers) (p : Byte) (s : State) : Prop :=
  ∀ i < bufferByteSize, s.cache.Shows B.line (· = p) (offset buf.dst i)

theorem Shown.moved (h : Shown B buf p s) (hQuiet : Quiet s) (hMove : Steady B buf s s') :
    Shown B buf p s' := fun i hi => (hMove.keeps hQuiet).shows (h i hi)

/-- The master copies, or the transfer has come to its end. -/
structure Moving (B : Board) (buf : Buffers) (expected : Expected) (σ : Settings)
    (done : List Test) (m : Master) (p : Byte) (s : State) : Prop where
  inv : Inv B buf s
  isr : s.isr = 0
  settings : ∃ flags, s.settings = { σ with zdmaCoherent := flags }
  right : List.Forall₂ (Right expected) s.readbacks done
  transferring : Transferring B buf p s
  job : (∃ job, s.job = some job ∧ job.master = m ∧
      (expected.seen m → B.snooped s.settings m = true)) ∨
    s.job = none ∧ (s.finished = true → expected.seen m → Shown B buf p s)
  unseen : Pinned B buf → expected.unseen m → Untouched B buf s

theorem Moving.moved (h : Moving B buf expected σ done m p s) (hMove : Steady B buf s s') :
    Moving B buf expected σ done m p s' where
  inv := hMove.inv h.inv
  isr := hMove.isr h.isr
  settings := hMove.settings ▸ h.settings
  right := hMove.readbacks ▸ h.right
  transferring := hMove.transferring h.transferring
  job := by
    rcases h.job with ⟨job, hSome, rfl, hSnooped⟩ | ⟨hNone, hShown⟩
    · rw [← hMove.settings] at hSnooped
      rcases hMove.job h.transferring hSome with ⟨job', hSome', hMaster⟩ | ⟨hNone, hDelivered⟩
      · exact .inl ⟨job', hSome', hMaster, hSnooped⟩
      · exact .inr ⟨hNone, fun hDone hSeen => hDelivered h.isr hDone (hSnooped hSeen)⟩
    · obtain ⟨hNone', hFinished⟩ := hMove.idle hNone
      refine .inr ⟨hNone', fun hDone hSeen => ?_⟩
      exact (hShown (hFinished ▸ hDone) hSeen).moved ⟨hNone, h.isr⟩ hMove
  unseen hPinned hUnseen := hMove.untouched hPinned (h.unseen hPinned hUnseen)

/-- The transfer is over, or the RPU has not acknowledged in time. -/
structure Ended (B : Board) (buf : Buffers) (expected : Expected) (σ : Settings)
    (done : List Test) (m : Master) (p : Byte) (s : State) : Prop where
  inv : Inv B buf s
  job : s.job = none
  isr : m ≠ .rpu → s.isr = 0
  settings : ∃ flags, s.settings = { σ with zdmaCoherent := flags }
  right : List.Forall₂ (Right expected) s.readbacks done
  transferring : Transferring B buf p s
  shown : s.finished = true → s.isr = 0 ∧ (expected.seen m → Shown B buf p s)
  unseen : Pinned B buf → expected.unseen m → Untouched B buf s

theorem Ended.moved (h : Ended B buf expected σ done m p s) (hMove : Steady B buf s s') :
    Ended B buf expected σ done m p s' where
  inv := hMove.inv h.inv
  job := (hMove.idle h.job).1
  isr hOther := hMove.isr (h.isr hOther)
  settings := hMove.settings ▸ h.settings
  right := hMove.readbacks ▸ h.right
  transferring := hMove.transferring h.transferring
  shown hDone := by
    rw [(hMove.idle h.job).2] at hDone
    obtain ⟨hIsr, hShown⟩ := h.shown hDone
    exact ⟨hMove.isr hIsr, fun hSeen => (hShown hSeen).moved ⟨h.job, hIsr⟩ hMove⟩
  unseen hPinned hUnseen := hMove.untouched hPinned (h.unseen hPinned hUnseen)

theorem Loaded.withSettings (h : Loaded B buf expected σ done p s) {settings : Settings}
    (hSettings : ∃ flags, settings = { σ with zdmaCoherent := flags }) :
    Loaded B buf expected σ done p { s with settings } :=
  ⟨⟨⟨inv_of_clear h.quiet.isr, ⟨h.quiet.job, h.quiet.isr⟩, hSettings, h.right⟩, h.src⟩, h.dst,
    h.dirty⟩

theorem Loaded.begin (h : Loaded B buf expected σ done p s)
    (hSeen : expected.seen m → B.snooped s.settings m = true)
    (hUnseen : expected.unseen m → B.snooped s.settings m = false) :
    Moving B buf expected σ done m p (s.begin m buf.src buf.dst bufferByteSize) := by
  have hTransferring := h.transferring
  refine ⟨inv_of_clear h.quiet.isr, h.quiet.isr, h.settings, h.right,
    ⟨hTransferring.src, hTransferring.dst, fun job hMem => ?_⟩, .inl ⟨_, rfl, rfl, hSeen⟩,
    fun hPinned hHere =>
      ⟨h.dirty hPinned, fun job hMem => ?_, fun hBusy => absurd h.quiet.isr hBusy⟩⟩
  · cases hMem
    exact ⟨rfl, rfl, rfl, fun _ _ hData => absurd hData (Option.some_ne_none _).symm,
      fun _ _ _ hDone => absurd hDone Bool.false_ne_true⟩
  · cases hMem
    exact hUnseen hHere

theorem Loaded.refused (h : Loaded B buf expected σ done p s) (m : Master) :
    Moving B buf expected σ done m p { s with finished := false } :=
  ⟨inv_of_clear h.quiet.isr, h.quiet.isr, h.settings, h.right,
    h.transferring.keeps (Keeps.refl B _) rfl rfl,
    .inr ⟨h.quiet.job, fun hDone => absurd hDone Bool.false_ne_true⟩,
    fun hPinned _ => Quiet.untouched ⟨h.quiet.job, h.quiet.isr⟩ (h.dirty hPinned)⟩

/-- With the settings of the configuration, the interconnect snoops the masters that it should, and
the line that is read back stays in the cache where it should tell the others from these. -/
structure Ready (B : Board) (buf : Buffers) (expected : Expected) (tests : List Test)
    (σ : Settings) : Prop where
  seen : ∀ flags, ∀ test ∈ tests, (test.master = .zdma → flags = (1, 1)) →
    expected.seen test.master → B.snooped { σ with zdmaCoherent := flags } test.master = true
  unseen : ∀ settings m, expected.unseen m → B.snooped settings m = false
  pinned : ∀ m, expected.unseen m → Pinned B buf

theorem simpleTransfer_runs {rest : Status → Apu α} (h : Loaded B buf expected σ done p s)
    (hDone : done <+: tests)
    (hSeen : ∀ flags, expected.seen m → B.snooped { σ with zdmaCoherent := flags } m = true)
    (hUnseen : ∀ settings, expected.unseen m → B.snooped settings m = false)
    (hNext : ∀ status s', Moving B buf expected σ done m p s' →
      Runs B buf expected tests post (rest status) s') :
    Runs B buf expected tests post
      (apuOp (.simpleTransfer m buf.src buf.dst bufferByteSize) >>= rest) s := by
  apply apu_op h.inv (h.printed hDone)
  · exact fun s' hMove => h.quiet.moved hMove
  intro s₁ status s₂ hMove _ hServe
  have hLoaded := h.moved hMove
  apply hNext
  rcases hServe with hStarted | ⟨-, rfl⟩
  · cases hStarted
    apply hLoaded.begin _ (hUnseen _)
    obtain ⟨flags, hSettings⟩ := hLoaded.settings
    rw [hSettings]
    exact hSeen flags
  · exact hLoaded.refused m

theorem zdmaStart_runs {rest : Status → Apu α} (h : Loaded B buf expected σ done p s)
    (hDone : done <+: tests)
    (hSeen : expected.seen .zdma → B.snooped { σ with zdmaCoherent := (1, 1) } .zdma = true)
    (hUnseen : ∀ settings, expected.unseen .zdma → B.snooped settings .zdma = false)
    (hNext : ∀ status s', Moving B buf expected σ done .zdma p s' →
      Runs B buf expected tests post (rest status) s') :
    Runs B buf expected tests post
      (apuOp (.zdmaStart ⟨buf.src, buf.dst, 1, 1, bufferByteSize⟩) >>= rest) s := by
  apply apu_op h.inv (h.printed hDone)
  · exact fun s' hMove => h.quiet.moved hMove
  intro s₁ status s₂ hMove _ hServe
  have hLoaded := h.moved hMove
  apply hNext
  rcases hServe with hStarted | ⟨-, rfl⟩
  · cases hStarted
    obtain ⟨flags, hSettings⟩ := hLoaded.settings
    have hFlags : { s₁.settings with zdmaCoherent := (1, 1) } =
        { σ with zdmaCoherent := (1, 1) } := by rw [hSettings]
    apply (hLoaded.withSettings ⟨(1, 1), hFlags⟩).begin _ (hUnseen _)
    rw [hFlags]
    exact hSeen
  · exact hLoaded.refused .zdma

theorem startTransfer_runs {rest : Status → Apu α}
    (h : Loaded B buf expected σ done test.pattern s) (hReady : Ready B buf expected tests σ)
    (hDone : done <+: tests) (hTest : test ∈ tests)
    (hNext : ∀ status s', Moving B buf expected σ done test.master test.pattern s' →
      Runs B buf expected tests post (rest status) s') :
    Runs B buf expected tests post (startTransfer buf test.master >>= rest) s := by
  have hSeen := fun flags => hReady.seen flags test hTest
  have hUnseen := fun settings => hReady.unseen settings test.master
  revert hNext hSeen hUnseen
  cases test.master with
  | zdma =>
    exact fun hNext hSeen hUnseen =>
      zdmaStart_runs h hDone (hSeen (1, 1) fun _ => rfl) hUnseen hNext
  | _ =>
    intro hNext hSeen hUnseen
    apply simpleTransfer_runs h hDone _ hUnseen hNext
    exact fun flags => hSeen flags fun hZdma => Master.noConfusion hZdma

theorem awaitIdle_runs {rest : Unit → Apu α} (h : Moving B buf expected σ done m p s)
    (hDone : done <+: tests)
    (hNext : ∀ s', Ended B buf expected σ done m p s' →
      Runs B buf expected tests post (rest ()) s') :
    Runs B buf expected tests post (apuOp (.awaitIdle m) >>= rest) s := by
  apply apu_op h.inv ⟨done, hDone, h.right⟩
  · exact fun _ _ => trivial
  intro s₁ answer s₂ hMove _ hServe
  rcases hServe with hWaited | ⟨hMay, -⟩
  case inr => exact hMay.elim
  have hHere := h.moved hMove
  simp only [apuServe] at hWaited
  split at hWaited
  case isFalse => cases hWaited
  case isTrue hIdle =>
    cases hWaited
    have hNone : s₁.job = none := Option.isNone_iff_eq_none.mp hIdle
    apply hNext
    refine ⟨hHere.inv, hNone, fun _ => hHere.isr, hHere.settings, hHere.right, hHere.transferring,
      fun hFinished => ⟨hHere.isr, ?_⟩, hHere.unseen⟩
    rcases hHere.job with ⟨job, hSome, -⟩ | ⟨-, hShown⟩
    · rw [hNone] at hSome
      cases hSome
    · exact hShown hFinished

/-- What the APU loads from the destination buffer. -/
theorem Ended.right_of_load (h : Ended B buf expected σ done test.master test.pattern s)
    (hPinned : expected.unseen test.master → Pinned B buf) {k : Address} {finished : Bool}
    (hFinished : finished = s.finished) : Right expected
      ⟨finished, [((s.cache.fill k).view B.line (offset buf.dst 0)).setWidth 32]⟩ test := by
  have hZero : 0 < bufferByteSize := by decide
  constructor
  · rcases ((h.transferring.dst 0 hZero).fill k).view with hPattern | hCached
    · exact .inl (by rw [hPattern])
    · exact .inr (by rw [hCached]; rfl)
  · intro hOver hSeen
    have hPattern : (s.cache.fill k).view B.line (offset buf.dst 0) = test.pattern :=
      (((h.shown (hFinished ▸ hOver)).2 hSeen 0 hZero).fill k).view
    rw [hPattern]
  · intro hUnseen
    have hCached : (s.cache.fill k).view B.line (offset buf.dst 0) = 0xFF :=
      (((h.unseen (hPinned hUnseen) hUnseen).dirty).fill k).view
    rw [hCached]
    rfl

theorem Ended.print (h : Ended B buf expected σ done m p s) {values : List U32}
    (hRight : Right expected ⟨s.finished, values⟩ test) :
    Ended B buf expected σ (done ++ [test]) m p
      { s with readbacks := s.readbacks ++ [⟨s.finished, values⟩] } where
  inv := h.inv.keeps (Keeps.refl B _) rfl rfl rfl rfl rfl
  job := h.job
  isr := h.isr
  settings := h.settings
  right := List.rel_append h.right (.cons hRight .nil)
  transferring := h.transferring.keeps (Keeps.refl B _) rfl rfl
  shown := h.shown
  unseen hPinned hUnseen := (h.unseen hPinned hUnseen).same ⟨rfl, rfl, rfl, rfl, rfl, rfl⟩

theorem readback_runs (h : Ended B buf expected σ done test.master test.pattern s)
    (hPinned : expected.unseen test.master → Pinned B buf)
    (hDone : done ++ [test] <+: tests) :
    Runs B buf expected tests
      (fun _ => Ended B buf expected σ (done ++ [test]) test.master test.pattern) (readback buf)
      s := by
  have hBefore : done <+: tests := (List.prefix_append done [test]).trans hDone
  apply apu_op h.inv ⟨done, hBefore, h.right⟩
  · exact fun _ _ => trivial
  intro s₁ value s₂ hMove₁ _ hServe
  rcases hServe with hLoaded | ⟨hMay, -⟩
  case inr => exact hMay.elim
  have hHere := h.moved hMove₁
  cases hLoaded
  have hHere₂ := hHere.moved (steady_cache (keeps_fill s₁.cache (B.line (offset buf.dst 0)))
    fun _ hDirty => hDirty.fill _).1
  rw [← bind_ret (apuOp _)]
  apply apu_op hHere₂.inv ⟨done, hBefore, hHere₂.right⟩
  · exact fun _ _ => trivial
  intro s₃ answer s₄ hMove₃ _ hServe
  rcases hServe with hPrinted | ⟨hMay, -⟩
  case inr => exact hMay.elim
  have hHere₃ := hHere₂.moved hMove₃
  have hFinished : s₃.finished = s₁.finished := (hMove₃.idle hHere₂.job).2
  cases hPrinted
  intro s₅ hMove₅
  exact (hHere₃.print (hHere.right_of_load hPinned hFinished)).moved hMove₅

theorem Ended.calm (h : Ended B buf expected σ done m p s) (hOther : m ≠ .rpu) :
    Calm B buf expected σ done s := ⟨h.inv, ⟨h.job, h.isr hOther⟩, h.settings, h.right⟩

/-- A line of text other than a readback. -/
theorem print_runs {format : String} {args : List U32} {rest : Unit → Apu α}
    (h : Calm B buf expected σ done s) (hDone : done <+: tests) (hText : format ≠ readbackFormat)
    (hNext : ∀ s', Calm B buf expected σ done s' → Runs B buf expected tests post (rest ()) s') :
    Runs B buf expected tests post (apuOp (.xilPrintf format args) >>= rest) s := by
  have hLocal : ∀ s, Quiet s → Local B buf (.xilPrintf format args) s := fun _ _ => trivial
  apply calm_idle h hDone hLocal id
  rintro s₁ answer s₂ hCalm - - ⟨⟩
  apply hNext
  simp only [if_neg hText]
  exact hCalm

/-- The texts of a test are not readbacks. -/
def Test.Plain (test : Test) : Prop := test.title ≠ readbackFormat ∧ test.note ≠ readbackFormat

instance Test.Plain.decidable (test : Test) : Decidable test.Plain :=
  inferInstanceAs (Decidable (test.title ≠ readbackFormat ∧ test.note ≠ readbackFormat))

theorem dmaTest_runs (h : Calm B buf expected σ done s) (hReady : Ready B buf expected tests σ)
    (hDone : done ++ [test] <+: tests) (hPlain : test.Plain) (hOther : test.master ≠ .rpu) :
    Runs B buf expected tests (fun _ => Calm B buf expected σ (done ++ [test]))
      (dmaTest buf test) s := by
  have hBefore : done <+: tests := (List.prefix_append done [test]).trans hDone
  apply print_runs h hBefore hPlain.1
  intro s₁ hCalm₁
  apply print_runs hCalm₁ hBefore hPlain.2
  intro s₂ hCalm₂
  apply Always.bind (Steady.refl B buf)
  apply (initBuffers_runs hCalm₂ hBefore test.pattern).mono fun _ _ => id
  intro _ s₃ hFilled
  apply Always.bind (Steady.refl B buf)
  apply (writeCache_runs hFilled hBefore).mono fun _ _ => id
  intro _ s₄ hLoaded
  apply startTransfer_runs hLoaded hReady hBefore (hDone.subset (by simp))
  intro status s₅ hMoving
  apply awaitIdle_runs hMoving hBefore
  intro s₆ hEnded
  apply (readback_runs hEnded (hReady.pinned _) hDone).mono fun _ _ => id
  exact fun _ s₇ hHere => hHere.calm hOther

/-- The RPU has been called on. -/
structure Called (B : Board) (buf : Buffers) (expected : Expected) (σ : Settings)
    (done : List Test) (p : Byte) (s : State) : Prop where
  inv : Inv B buf s
  job : s.job = none
  settings : ∃ flags, s.settings = { σ with zdmaCoherent := flags }
  right : List.Forall₂ (Right expected) s.readbacks done
  transferring : Transferring B buf p s
  isr : s.isr = B.apuMask ∨ s.isr = 0 ∧ Delivered B buf .rpu p s
  unseen : Pinned B buf → expected.unseen .rpu → Untouched B buf s

theorem Called.moved (h : Called B buf expected σ done p s) (hMove : Steady B buf s s') :
    Called B buf expected σ done p s' where
  inv := hMove.inv h.inv
  job := (hMove.idle h.job).1
  settings := hMove.settings ▸ h.settings
  right := hMove.readbacks ▸ h.right
  transferring := hMove.transferring h.transferring
  isr := by
    rcases h.isr with hPending | ⟨hClear, hDelivered⟩
    · exact hMove.pending h.inv h.transferring hPending
    · exact .inr ⟨hMove.isr hClear, hDelivered.moved ⟨h.job, hClear⟩ hMove⟩
  unseen hPinned hUnseen := hMove.untouched hPinned (h.unseen hPinned hUnseen)

theorem pollForAck_runs {timeOutCount : Nat} {rest : Status → Apu α}
    (h : Called B buf expected σ done p s) (hDone : done <+: tests)
    (hSeen : ∀ flags, expected.seen .rpu → B.snooped { σ with zdmaCoherent := flags } .rpu = true)
    (hNext : ∀ status s', Ended B buf expected σ done .rpu p s' →
      Runs B buf expected tests post (rest status) s') :
    Runs B buf expected tests post (apuOp (.pollForAck B.rpuMask timeOutCount) >>= rest) s := by
  apply apu_op h.inv ⟨done, hDone, h.right⟩
  · exact fun _ _ => trivial
  intro s₁ status s₂ hMove hInv hServe
  have hHere := h.moved hMove
  apply hNext
  rcases hServe with hPolled | ⟨-, rfl⟩
  · simp only [apuServe] at hPolled
    split at hPolled
    case isFalse => cases hPolled
    case isTrue hAcked =>
      cases hPolled
      -- The RPU no longer has the interrupt of the APU pending.
      have hNot : s₁.isr ≠ B.apuMask := by
        intro hPending
        rw [observation, hPending, BitVec.and_self, if_neg B.apuMask_ne, BitVec.and_self] at hAcked
        exact B.rpuMask_ne hAcked
      obtain ⟨hClear, hDelivered⟩ := hHere.isr.resolve_left hNot
      refine ⟨hInv, hHere.job, fun _ => hClear, hHere.settings, hHere.right,
        hHere.transferring.keeps (Keeps.refl B _) rfl rfl, fun _ => ⟨hClear, fun hHere' => ?_⟩,
        fun hPinned hUnseen =>
          (hHere.unseen hPinned hUnseen).same ⟨rfl, rfl, rfl, rfl, rfl, rfl⟩⟩
      apply hDelivered
      obtain ⟨flags, hSettings⟩ := hHere.settings
      rw [hSettings]
      exact hSeen flags hHere'
  · exact ⟨hInv, hHere.job, fun hOther => absurd rfl hOther, hHere.settings, hHere.right,
      hHere.transferring.keeps (Keeps.refl B _) rfl rfl,
      fun hFinished => absurd hFinished Bool.false_ne_true, fun hPinned hUnseen =>
        (hHere.unseen hPinned hUnseen).same ⟨rfl, rfl, rfl, rfl, rfl, rfl⟩⟩

/-- The request is in the message buffer. -/
structure Posted (B : Board) (buf : Buffers) (expected : Expected) (σ : Settings)
    (done : List Test) (p : Byte) (s : State) : Prop extends Loaded B buf expected σ done p s where
  message : s.messages B.apuMask = message buf

theorem Posted.moved (h : Posted B buf expected σ done p s) (hMove : Steady B buf s s') :
    Posted B buf expected σ done p s' :=
  ⟨h.toLoaded.moved hMove, hMove.messages ▸ h.message⟩

theorem writeMessage_runs {rest : Unit → Apu α} (h : Loaded B buf expected σ done p s)
    (hDone : done <+: tests) (hNext : ∀ s', Posted B buf expected σ done p s' →
      Runs B buf expected tests post (rest ()) s') :
    Runs B buf expected tests post
      (apuOp (.writeMessage B.rpuMask (message buf)) >>= rest) s := by
  apply calm_idle h.toCalm hDone (fun _ => id) id
  rintro s₁ answer s₂ - hMove hInv ⟨⟩
  have hLoaded := h.moved hMove
  apply hNext
  refine ⟨⟨⟨⟨hInv, ⟨hLoaded.quiet.job, hLoaded.quiet.isr⟩, hLoaded.settings, hLoaded.right⟩,
    hLoaded.src⟩, hLoaded.dst, hLoaded.dirty⟩, ?_⟩
  dsimp only
  rw [if_pos rfl]
  exact Function.update_self _ _ _

theorem triggerIpi_runs {rest : Unit → Apu α} (h : Posted B buf expected σ done p s)
    (hDone : done <+: tests)
    (hUnseen : ∀ settings, expected.unseen .rpu → B.snooped settings .rpu = false)
    (hNext : ∀ s', Called B buf expected σ done p s' →
      Runs B buf expected tests post (rest ()) s') :
    Runs B buf expected tests post (apuOp (.triggerIpi B.rpuMask) >>= rest) s := by
  apply apu_op h.inv (h.printed hDone)
  · intro s₁ hMove
    have hPosted := h.moved hMove
    exact ⟨hPosted.quiet, hPosted.quiet.job, hPosted.message, p, hPosted.transferring⟩
  intro s₁ answer s₂ hMove hInv hServe
  rcases hServe with hTriggered | ⟨hMay, -⟩
  case inr => exact hMay.elim
  have hPosted := h.moved hMove
  cases hTriggered
  apply hNext
  refine ⟨hInv, hPosted.quiet.job, hPosted.settings, hPosted.right,
    hPosted.transferring.keeps (Keeps.refl B _) rfl rfl, .inl ?_, fun hPinned hHere =>
    ⟨hPosted.dirty hPinned, (hPosted.quiet.untouched (hPosted.dirty hPinned)).job,
      fun _ => hUnseen _ hHere⟩⟩
  dsimp only
  rw [BitVec.and_self, if_neg B.rpuMask_ne, hPosted.quiet.isr]
  exact BitVec.zero_or

theorem rpuTest_runs (h : Calm B buf expected σ done s) (hReady : Ready B buf expected tests σ)
    (hDone : done ++ [test] <+: tests) (hPlain : test.Plain) (hRpu : test.master = .rpu) :
    Runs B buf expected tests
      (fun _ s' => Inv B buf s' ∧ List.Forall₂ (Right expected) s'.readbacks (done ++ [test]))
      (rpuTest buf B.rpuMask test) s := by
  have hBefore : done <+: tests := (List.prefix_append done [test]).trans hDone
  have hSnooped : ∀ flags, expected.seen .rpu →
      B.snooped { σ with zdmaCoherent := flags } .rpu = true := by
    intro flags
    have hHere := hReady.seen flags test (hDone.subset (by simp))
    rw [hRpu] at hHere
    exact hHere fun hZdma => Master.noConfusion hZdma
  have hPinned := hReady.pinned test.master
  apply print_runs h hBefore hPlain.1
  intro s₁ hCalm₁
  apply print_runs hCalm₁ hBefore hPlain.2
  intro s₂ hCalm₂
  apply Always.bind (Steady.refl B buf)
  apply (initBuffers_runs hCalm₂ hBefore test.pattern).mono fun _ _ => id
  intro _ s₃ hFilled
  apply Always.bind (Steady.refl B buf)
  apply (writeCache_runs hFilled hBefore).mono fun _ _ => id
  intro _ s₄ hLoaded
  apply writeMessage_runs hLoaded hBefore
  intro s₅ hPosted
  apply triggerIpi_runs hPosted hBefore fun settings => hReady.unseen settings .rpu
  intro s₆ hCalled
  apply pollForAck_runs hCalled hBefore hSnooped
  intro status s₇ hEnded
  rw [← hRpu] at hEnded
  apply (readback_runs hEnded hPinned hDone).mono fun _ _ => id
  exact fun _ s₈ hHere => ⟨hHere.inv, hHere.right⟩

/-- The configuration is run on the settings alone. -/
theorem setUp_runs {β : Type} {prog : Configuration β} {rest : β → Apu α}
    (h : Inv B buf s) (hQuiet : Quiet s) (hNone : s.readbacks = [])
    (hNext : ∀ s', Inv B buf s' → Quiet s' → s'.readbacks = [] →
      s'.settings = (exec (configure B) prog s.settings).2 →
      Runs B buf expected tests post (rest (exec (configure B) prog s.settings).1) s') :
    Runs B buf expected tests post (setUp prog >>= rest) s := by
  have hPrinted : ∀ s : State, s.readbacks = [] → Printed expected tests s.readbacks :=
    fun s hHere => hHere ▸ ⟨[], List.nil_prefix, .nil⟩
  induction prog generalizing s with
  | ret value => exact hNext s h hQuiet hNone rfl
  | call e next ih =>
    apply apu_op h (hPrinted s hNone)
    · exact fun s' hMove => hQuiet.moved hMove
    intro s₁ answer s₂ hMove hInv hServe
    rcases hServe with hSet | ⟨hMay, -⟩
    case inr => exact hMay.elim
    have hQuiet₁ := hQuiet.moved hMove
    have hSettings : s₁.settings = s.settings := hMove.settings
    rw [← hSettings] at hNext
    cases hSet
    exact ih _ hInv ⟨hQuiet₁.job, hQuiet₁.isr⟩ (hMove.readbacks.trans hNone) hNext

theorem dmaTests_runs {l : List Test} {last : Test} (h : Calm B buf expected σ [] s)
    (hReady : Ready B buf expected (l ++ [last]) σ)
    (hPlain : ∀ test ∈ l, test.Plain ∧ test.master ≠ .rpu) :
    Runs B buf expected (l ++ [last]) (fun _ => Calm B buf expected σ l) (l.forM (dmaTest buf))
      s := by
  apply Always.forM_split (I := Calm B buf expected σ) (Steady.refl B buf)
  case hStable => exact fun _ _ _ => Calm.moved
  case hInit => exact h
  intro done test rest s hList hHere
  have hTest : test ∈ l := by simp [hList]
  apply dmaTest_runs hHere hReady _ (hPlain test hTest).1 (hPlain test hTest).2
  exact ⟨rest ++ [last], by simp [hList]⟩

end Apu

end SoftwarePrototypes.CacheCoherency
