import SoftwarePrototypes.CacheCoherency.Programs

/-! # What moves the buffers

While a pattern is copied, the source buffer holds it wherever one looks, and the destination buffer
shows the pattern or the bytes of the cache. Each of the two processors relies on what the hardware
and the other processor leave of this.
-/

namespace SoftwarePrototypes.CacheCoherency

open Interaction Interaction.Caches
open Interaction.Memory (Byte)

section Contents

variable (B : Board) (buf : Buffers)

/-- What can be seen of a cache is only narrowed down. -/
structure Keeps (cache cache' : Cached Address Address Byte) : Prop where
  shows : ∀ {V : Byte → Prop} {a}, cache.Shows B.line V a → cache'.Shows B.line V a
  everywhere : ∀ {V : Byte → Prop} {a}, cache.Everywhere B.line V a → cache'.Everywhere B.line V a

def PatternOrCached (p v : Byte) : Prop := v = p ∨ v = 0xFF

/-- A snooped master has brought the pattern to the whole destination buffer. -/
def Delivered (m : Master) (p : Byte) (s : State) : Prop :=
  B.snooped s.settings m = true → ∀ i < bufferByteSize,
    s.cache.Shows B.line (· = p) (offset buf.dst i)

structure JobOf (p : Byte) (s : State) (job : Job) : Prop where
  src : job.src = buf.src
  dst : job.dst = buf.dst
  size : job.size = bufferByteSize
  data : ∀ i v, job.data i = some v → v = p
  done : B.snooped s.settings job.master = true → ∀ i < bufferByteSize, job.done i = true →
    s.cache.Shows B.line (· = p) (offset buf.dst i)

structure Transferring (p : Byte) (s : State) : Prop where
  src : ∀ i < bufferByteSize, s.cache.Everywhere B.line (· = p) (offset buf.src i)
  dst : ∀ i < bufferByteSize, s.cache.Shows B.line (PatternOrCached p) (offset buf.dst i)
  job : ∀ job ∈ s.job, JobOf B buf p s job

/-- Nothing but the APU writes to the memory. -/
structure Quiet (s : State) : Prop where
  job : s.job = none
  isr : s.isr = 0

def message : Words := (buf.src, buf.dst, BitVec.ofNat 32 bufferByteSize)

structure Pending (s : State) : Prop where
  job : s.job = none
  message : s.messages B.apuMask = message buf
  transferring : ∃ p, Transferring B buf p s

structure Inv (s : State) : Prop where
  isr : s.isr = 0 ∨ s.isr = B.apuMask
  pending : s.isr = B.apuMask → Pending B buf s
  up : s.rpuUp = false → s.isr = 0

/-- The hardware does not evict the line that is read back. -/
def Pinned : Prop := ∀ a, B.line a = B.line (offset buf.dst 0) → B.mayEvict a = false

def DirtyCopy (s : State) : Prop := s.cache.Dirty B.line 0xFF (offset buf.dst 0)

/-- The line that is read back is dirty, and all masters at work go past the cache. -/
structure Untouched (s : State) : Prop where
  dirty : DirtyCopy B buf s
  job : ∀ job ∈ s.job, B.snooped s.settings job.master = false
  rpu : s.isr ≠ 0 → B.snooped s.settings .rpu = false

/-- What the APU relies on. -/
structure Steady (s s' : State) : Prop where
  inv : Inv B buf s → Inv B buf s'
  settings : s'.settings = s.settings
  readbacks : s'.readbacks = s.readbacks
  messages : s'.messages = s.messages
  idle : s.job = none → s'.job = none ∧ s'.finished = s.finished
  isr : s.isr = 0 → s'.isr = 0
  keeps : Quiet s → Keeps B s.cache s'.cache
  transferring : ∀ {p}, Transferring B buf p s → Transferring B buf p s'
  job : ∀ {p job}, Transferring B buf p s → s.job = some job →
    (∃ job', s'.job = some job' ∧ job'.master = job.master) ∨
      s'.job = none ∧ (s.isr = 0 → s'.finished = true → Delivered B buf job.master p s')
  pending : ∀ {p}, Inv B buf s → Transferring B buf p s → s.isr = B.apuMask →
    s'.isr = B.apuMask ∨ s'.isr = 0 ∧ Delivered B buf .rpu p s'
  untouched : Pinned B buf → Untouched B buf s → Untouched B buf s'

/-- What the RPU relies on while it serves the APU. -/
structure RpuSteady (s s' : State) : Prop where
  inv : Inv B buf s → Inv B buf s'
  rpuDCache : s'.rpuDCache = s.rpuDCache
  rpuUp : s'.rpuUp = s.rpuUp
  settings : Inv B buf s → s.isr = B.apuMask → s'.settings = s.settings
  isr : Inv B buf s → s.isr = B.apuMask → s'.isr = B.apuMask
  keeps : Inv B buf s → s.isr = B.apuMask → Keeps B s.cache s'.cache

end Contents

variable {B : Board} {buf : Buffers} {s s' s'' : State} {p : Byte} {m : Master}

/-! ### Caches -/

section Caches

variable {cache cache' cache'' : Cached Address Address Byte}

theorem Keeps.refl (B : Board) (cache : Cached Address Address Byte) : Keeps B cache cache :=
  ⟨id, id⟩

theorem Keeps.trans (h : Keeps B cache cache') (h' : Keeps B cache' cache'') :
    Keeps B cache cache'' :=
  ⟨fun hShows => h'.shows (h.shows hShows), fun hAll => h'.everywhere (h.everywhere hAll)⟩

theorem keeps_evict (cache : Cached Address Address Byte) (k : Address) :
    Keeps B cache (cache.evict B.line k) :=
  ⟨fun h => h.evict k, fun h => h.evict k⟩

theorem keeps_fill (cache : Cached Address Address Byte) (k : Address) :
    Keeps B cache (cache.fill k) :=
  ⟨fun h => h.fill k, fun h => h.fill k⟩

theorem Delivered.keeps (h : Delivered B buf m p s) (hKeeps : Keeps B s.cache s'.cache)
    (hSettings : s'.settings = s.settings) : Delivered B buf m p s' := by
  intro hSnooped i hi
  rw [hSettings] at hSnooped
  exact hKeeps.shows (h hSnooped i hi)

theorem Transferring.keeps (h : Transferring B buf p s) (hKeeps : Keeps B s.cache s'.cache)
    (hSettings : s'.settings = s.settings) (hJob : s'.job = s.job) :
    Transferring B buf p s' := by
  refine ⟨fun i hi => hKeeps.everywhere (h.src i hi), fun i hi => hKeeps.shows (h.dst i hi), ?_⟩
  rw [hJob]
  intro job hMem
  have hOf := h.job job hMem
  refine ⟨hOf.src, hOf.dst, hOf.size, hOf.data, ?_⟩
  rw [hSettings]
  exact fun hSnooped i hi hDone => hKeeps.shows (hOf.done hSnooped i hi hDone)

theorem Inv.keeps (h : Inv B buf s) (hKeeps : Keeps B s.cache s'.cache)
    (hSettings : s'.settings = s.settings) (hJob : s'.job = s.job) (hIsr : s'.isr = s.isr)
    (hMessages : s'.messages = s.messages) (hUp : s'.rpuUp = s.rpuUp) : Inv B buf s' := by
  constructor
  · rw [hIsr]
    exact h.isr
  · rw [hIsr]
    intro hPending
    obtain ⟨hNone, hMessage, p, hTransferring⟩ := h.pending hPending
    exact ⟨hJob.trans hNone, hMessages ▸ hMessage, p, hTransferring.keeps hKeeps hSettings hJob⟩
  · rw [hUp, hIsr]
    exact h.up

end Caches

/-! ### The two relations -/

theorem Steady.refl (B : Board) (buf : Buffers) (s : State) : Steady B buf s s where
  inv := id
  settings := rfl
  readbacks := rfl
  messages := rfl
  idle hNone := ⟨hNone, rfl⟩
  isr := id
  keeps _ := Keeps.refl B s.cache
  transferring := id
  job _ hSome := .inl ⟨_, hSome, rfl⟩
  pending _ _ hIsr := .inl hIsr
  untouched _ := id

theorem Quiet.moved (h : Quiet s) (hMove : Steady B buf s s') : Quiet s' :=
  ⟨(hMove.idle h.job).1, hMove.isr h.isr⟩

theorem Delivered.moved (h : Delivered B buf m p s) (hQuiet : Quiet s)
    (hMove : Steady B buf s s') : Delivered B buf m p s' :=
  h.keeps (hMove.keeps hQuiet) hMove.settings

theorem Steady.trans (h : Steady B buf s s') (h' : Steady B buf s' s'') : Steady B buf s s'' where
  inv hInv := h'.inv (h.inv hInv)
  settings := h'.settings.trans h.settings
  readbacks := h'.readbacks.trans h.readbacks
  messages := h'.messages.trans h.messages
  idle hNone := by
    obtain ⟨hNone', hFinished⟩ := h.idle hNone
    obtain ⟨hNone'', hFinished'⟩ := h'.idle hNone'
    exact ⟨hNone'', hFinished'.trans hFinished⟩
  isr hIsr := h'.isr (h.isr hIsr)
  keeps hQuiet := (h.keeps hQuiet).trans (h'.keeps (hQuiet.moved h))
  transferring hTransferring := h'.transferring (h.transferring hTransferring)
  job hTransferring hSome := by
    rcases h.job hTransferring hSome with ⟨job', hSome', hMaster⟩ | ⟨hNone, hDelivered⟩
    · rcases h'.job (h.transferring hTransferring) hSome' with ⟨job'', hSome'', hMaster'⟩ |
        ⟨hNone, hDelivered⟩
      · exact .inl ⟨job'', hSome'', hMaster'.trans hMaster⟩
      · rw [hMaster] at hDelivered
        exact .inr ⟨hNone, fun hIsr => hDelivered (h.isr hIsr)⟩
    · obtain ⟨hNone', hFinished⟩ := h'.idle hNone
      refine .inr ⟨hNone', fun hIsr hDone => ?_⟩
      exact (hDelivered hIsr (hFinished ▸ hDone)).moved ⟨hNone, h.isr hIsr⟩ h'
  pending hInv hTransferring hIsr := by
    rcases h.pending hInv hTransferring hIsr with hIsr' | ⟨hClear, hDelivered⟩
    · exact h'.pending (h.inv hInv) (h.transferring hTransferring) hIsr'
    · have hNone : s'.job = none := (h.idle (hInv.pending hIsr).job).1
      exact .inr ⟨h'.isr hClear, hDelivered.moved ⟨hNone, hClear⟩ h'⟩
  untouched hPinned hUntouched := h'.untouched hPinned (h.untouched hPinned hUntouched)

theorem RpuSteady.refl (B : Board) (buf : Buffers) (s : State) : RpuSteady B buf s s where
  inv := id
  rpuDCache := rfl
  rpuUp := rfl
  settings _ _ := rfl
  isr _ := id
  keeps _ _ := Keeps.refl B s.cache

theorem RpuSteady.trans (h : RpuSteady B buf s s') (h' : RpuSteady B buf s' s'') :
    RpuSteady B buf s s'' where
  inv hInv := h'.inv (h.inv hInv)
  rpuDCache := h'.rpuDCache.trans h.rpuDCache
  rpuUp := h'.rpuUp.trans h.rpuUp
  settings hInv hIsr :=
    (h'.settings (h.inv hInv) (h.isr hInv hIsr)).trans (h.settings hInv hIsr)
  isr hInv hIsr := h'.isr (h.inv hInv) (h.isr hInv hIsr)
  keeps hInv hIsr := (h.keeps hInv hIsr).trans (h'.keeps (h.inv hInv) (h.isr hInv hIsr))

theorem RpuSteady.transferring (h : RpuSteady B buf s s') (hInv : Inv B buf s)
    (hIsr : s.isr = B.apuMask) (hTransferring : Transferring B buf p s) :
    Transferring B buf p s' := by
  apply hTransferring.keeps (h.keeps hInv hIsr) (h.settings hInv hIsr)
  rw [(hInv.pending hIsr).job]
  exact ((h.inv hInv).pending (h.isr hInv hIsr)).job

/-- Nothing has moved that the buffers depend on. -/
structure Same (s s' : State) : Prop where
  cache : s'.cache = s.cache
  settings : s'.settings = s.settings
  job : s'.job = s.job
  messages : s'.messages = s.messages
  isr : s'.isr = s.isr
  rpuUp : s'.rpuUp = s.rpuUp

theorem Same.keeps (h : Same s s') : Keeps B s.cache s'.cache := h.cache ▸ Keeps.refl B s.cache

theorem Same.inv (h : Same s s') (hInv : Inv B buf s) : Inv B buf s' :=
  hInv.keeps h.keeps h.settings h.job h.isr h.messages h.rpuUp

theorem Untouched.same (h : Untouched B buf s) (hSame : Same s s') : Untouched B buf s' := by
  constructor
  · rw [DirtyCopy, hSame.cache]
    exact h.dirty
  · rw [hSame.job, hSame.settings]
    exact h.job
  · rw [hSame.isr, hSame.settings]
    exact h.rpu

theorem Same.steady (h : Same s s') (hFinished : s'.finished = s.finished)
    (hReadbacks : s'.readbacks = s.readbacks) : Steady B buf s s' where
  inv := h.inv
  settings := h.settings
  readbacks := hReadbacks
  messages := h.messages
  idle hNone := ⟨h.job.trans hNone, hFinished⟩
  isr hIsr := h.isr.trans hIsr
  keeps _ := h.keeps
  transferring hTransferring := hTransferring.keeps h.keeps h.settings h.job
  job _ hSome := .inl ⟨_, h.job.trans hSome, rfl⟩
  pending _ _ hIsr := .inl (h.isr.trans hIsr)
  untouched _ hUntouched := hUntouched.same h

theorem Same.rpuSteady (h : Same s s') (hDCache : s'.rpuDCache = s.rpuDCache) :
    RpuSteady B buf s s' where
  inv := h.inv
  rpuDCache := hDCache
  rpuUp := h.rpuUp
  settings _ _ := h.settings
  isr _ hIsr := h.isr.trans hIsr
  keeps _ _ := h.keeps

/-! ### The hardware -/

/-- A step that only fills and evicts. -/
theorem steady_cache {cache : Cached Address Address Byte} (hKeeps : Keeps B s.cache cache)
    (hDirty : Pinned B buf → DirtyCopy B buf s → DirtyCopy B buf { s with cache }) :
    Steady B buf s { s with cache } ∧ RpuSteady B buf s { s with cache } := by
  have hInv : Inv B buf s → Inv B buf { s with cache } :=
    fun h => h.keeps hKeeps rfl rfl rfl rfl rfl
  constructor
  · exact ⟨hInv, rfl, rfl, rfl, fun hNone => ⟨hNone, rfl⟩, id, fun _ => hKeeps,
      fun h => h.keeps hKeeps rfl rfl, fun _ hSome => .inl ⟨_, hSome, rfl⟩, fun _ _ => .inl,
      fun hPinned h => ⟨hDirty hPinned h.dirty, h.job, h.rpu⟩⟩
  · exact ⟨hInv, rfl, rfl, fun _ _ => rfl, fun _ => id, fun _ _ => hKeeps⟩

/-- Only while nothing is pending for the RPU does an engine work. -/
theorem Inv.of_job (h : Inv B buf s) {job : Job} (hSome : s.job = some job) : s.isr = 0 := by
  rcases h.isr with hClear | hPending
  · exact hClear
  · have hNone := (h.pending hPending).job
    rw [hSome] at hNone
    cases hNone

theorem apuMask_ne_zero (h : s.isr = 0) : s.isr ≠ B.apuMask := h ▸ B.apuMask_ne.symm

/-- What an engine does, by what it leaves of the transfer. -/
theorem steady_job {job : Job} (hSome : s.job = some job)
    {cache : Cached Address Address Byte} {job' : Option Job} {finished : Bool}
    (hTransferring : ∀ {p}, Transferring B buf p s →
      Transferring B buf p { s with cache, job := job', finished })
    (hJob : ∀ {p}, Transferring B buf p s → (∃ next, job' = some next ∧ next.master = job.master) ∨
      job' = none ∧ (finished = true →
        Delivered B buf job.master p { s with cache, job := job', finished }))
    (hMaster : ∀ next ∈ job', next.master = job.master)
    (hDirty : B.snooped s.settings job.master = false → DirtyCopy B buf s →
      DirtyCopy B buf { s with cache, job := job', finished }) :
    Steady B buf s { s with cache, job := job', finished } ∧
      RpuSteady B buf s { s with cache, job := job', finished } := by
  have hClear : Inv B buf s → s.isr ≠ B.apuMask := fun h => apuMask_ne_zero (h.of_job hSome)
  have hInv : Inv B buf s → Inv B buf { s with cache, job := job', finished } :=
    fun h => ⟨h.isr, fun hPending => absurd hPending (hClear h), h.up⟩
  have hNot : s.job ≠ none := by
    rw [hSome]
    exact Option.some_ne_none job
  constructor
  · refine ⟨hInv, rfl, rfl, rfl, fun hNone => absurd hNone hNot, id,
      fun hQuiet => absurd hQuiet.job hNot, hTransferring, ?_,
      fun h _ hPending => absurd hPending (hClear h), fun _ h => ?_⟩
    · intro p job₁ hHere hSome₁
      rw [hSome] at hSome₁
      cases hSome₁
      exact (hJob hHere).imp_right fun ⟨hNone, hDelivered⟩ => ⟨hNone, fun _ => hDelivered⟩
    · have hPast := h.job job hSome
      refine ⟨hDirty hPast h.dirty, fun next hMem => ?_, h.rpu⟩
      rw [hMaster next hMem]
      exact hPast
  · exact ⟨hInv, rfl, rfl, fun h hPending => absurd hPending (hClear h),
      fun h hPending => absurd hPending (hClear h), fun h hPending => absurd hPending (hClear h)⟩

/-- The pattern, written to the destination buffer. -/
theorem Transferring.masterWrite (h : Transferring B buf p s) {i : Nat} (hi : i < bufferByteSize)
    (snooped : Bool) {cache : Cached Address Address Byte}
    (hCache : cache = s.cache.masterWrite B.line snooped (offset buf.dst i) p) :
    Transferring B buf p { s with cache } := by
  subst hCache
  constructor
  · exact fun j hj => (h.src j hj).masterWrite (buf.apart hj hi) snooped
  · exact fun j hj => (h.dst j hj).masterWrite snooped fun _ => .inl rfl
  · intro job hMem
    have hOf := h.job job hMem
    refine ⟨hOf.src, hOf.dst, hOf.size, hOf.data, fun hSnooped j hj hDone => ?_⟩
    exact (hOf.done hSnooped j hj hDone).masterWrite snooped fun _ => rfl

theorem fetch_steady {job : Job} (hSome : s.job = some job) {i : Nat} (hi : i < job.size) :
    Steady B buf s { s with job := some (job.fetch B s i) } ∧
      RpuSteady B buf s { s with job := some (job.fetch B s i) } := by
  apply steady_job hSome
  case hJob => exact fun _ => .inl ⟨_, rfl, rfl⟩
  case hMaster => exact fun next hMem => Option.some.inj hMem ▸ rfl
  case hDirty => exact fun _ => id
  intro p h
  refine ⟨h.src, h.dst, fun job' hMem => ?_⟩
  cases hMem
  have hOf := h.job job hSome
  refine ⟨hOf.src, hOf.dst, hOf.size, fun j v hData => ?_, hOf.done⟩
  dsimp only [Job.fetch] at hData
  by_cases hSame : j = i
  · subst hSame
    rw [Function.update_self, hOf.src] at hData
    cases hData
    exact (h.src j (hOf.size ▸ hi)).masterRead _
  · rw [Function.update_of_ne hSame] at hData
    exact hOf.data j v hData

theorem deposit_steady {job : Job} (hSome : s.job = some job) {i : Nat} (hi : i < job.size)
    {v : Byte} (hData : job.data i = some v) :
    let cache := s.cache.masterWrite B.line (B.snooped s.settings job.master) (offset job.dst i) v
    let job' := some { job with done := Function.update job.done i true }
    Steady B buf s { s with cache, job := job' } ∧
      RpuSteady B buf s { s with cache, job := job' } := by
  apply steady_job hSome
  case hJob => exact fun _ => .inl ⟨_, rfl, rfl⟩
  case hMaster => exact fun next hMem => Option.some.inj hMem ▸ rfl
  case hDirty =>
    intro hPast hDirty
    rw [hPast]
    exact hDirty.poke v
  intro p h
  have hOf := h.job job hSome
  have hi' : i < bufferByteSize := hOf.size ▸ hi
  obtain rfl := hOf.data i v hData
  have hWritten := h.masterWrite hi' (B.snooped s.settings job.master) rfl
  rw [hOf.dst]
  refine ⟨hWritten.src, hWritten.dst, fun job' hMem => ?_⟩
  cases hMem
  refine ⟨hOf.src, rfl, hOf.size, hOf.data, fun hSnooped j hj hDone => ?_⟩
  by_cases hSame : j = i
  · subst hSame
    have hSnooped' : B.snooped s.settings job.master = true := hSnooped
    rw [hSnooped']
    exact Cached.shows_masterWrite _ _ rfl
  · dsimp only at hDone
    rw [Function.update_of_ne hSame] at hDone
    exact (hWritten.job job hSome).done hSnooped j hj hDone

theorem complete_steady {job : Job} (hSome : s.job = some job)
    (hAll : (List.range job.size).all job.done = true) :
    Steady B buf s { s with job := none, finished := true } ∧
      RpuSteady B buf s { s with job := none, finished := true } := by
  apply steady_job hSome
  case hTransferring =>
    exact fun h => ⟨h.src, h.dst, fun job' hMem => (Option.not_mem_none job' hMem).elim⟩
  case hMaster => exact fun next hMem => (Option.not_mem_none next hMem).elim
  case hDirty => exact fun _ => id
  intro p h
  have hOf := h.job job hSome
  refine .inr ⟨rfl, fun _ hSnooped i hi => hOf.done hSnooped i hi ?_⟩
  rw [hOf.size] at hAll
  exact List.all_eq_true.mp hAll i (List.mem_range.mpr hi)

theorem stop_steady {job : Job} (hSome : s.job = some job) :
    Steady B buf s { s with job := none, finished := false } ∧
      RpuSteady B buf s { s with job := none, finished := false } := by
  apply steady_job hSome
  case hTransferring =>
    exact fun h => ⟨h.src, h.dst, fun job' hMem => (Option.not_mem_none job' hMem).elim⟩
  case hMaster => exact fun next hMem => (Option.not_mem_none next hMem).elim
  case hDirty => exact fun _ => id
  exact fun _ => .inr ⟨rfl, fun hFalse => absurd hFalse (by decide)⟩

theorem hardware_steady {choice : Choice} (h : hardware B choice s = some s') :
    Steady B buf s s' ∧ RpuSteady B buf s s' := by
  cases choice with
  | evict a =>
    simp only [hardware] at h
    split at h
    case isFalse => cases h
    case isTrue hMay =>
      cases h
      refine steady_cache (keeps_evict _ _) fun hPinned hDirty => hDirty.evict fun hLine => ?_
      rw [hPinned a hLine.symm] at hMay
      cases hMay
  | fill a =>
    cases h
    exact steady_cache (keeps_fill _ _) fun _ hDirty => hDirty.fill _
  | fetch i =>
    obtain ⟨job, hSome, hFetch⟩ := Option.bind_eq_some_iff.mp h
    split at hFetch
    case isFalse => cases hFetch
    case isTrue hi =>
      cases hFetch
      exact fetch_steady hSome hi
  | deposit i =>
    obtain ⟨job, hSome, hDeposit⟩ := Option.bind_eq_some_iff.mp h
    obtain ⟨v, hData, hWrite⟩ := Option.bind_eq_some_iff.mp hDeposit
    split at hWrite
    case isFalse => cases hWrite
    case isTrue hi =>
      cases hWrite
      exact deposit_steady hSome hi hData
  | complete =>
    obtain ⟨job, hSome, hComplete⟩ := Option.bind_eq_some_iff.mp h
    split at hComplete
    case isFalse => cases hComplete
    case isTrue hAll =>
      cases hComplete
      exact complete_steady hSome hAll
  | stop =>
    obtain ⟨job, hSome, hStop⟩ := Option.bind_eq_some_iff.mp h
    cases hStop
    exact stop_steady hSome
  | proceed | refuse | timeout | interrupt | stale v => cases h

end SoftwarePrototypes.CacheCoherency
