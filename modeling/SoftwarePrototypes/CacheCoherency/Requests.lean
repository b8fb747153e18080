import SoftwarePrototypes.CacheCoherency.Movements

/-! # How the RPU serves a request

Whatever the APU and the hardware do in the meantime, the handler copies the whole source buffer and
acknowledges after that. What the two processors do for each other is stated first.
-/

namespace SoftwarePrototypes.CacheCoherency

open Interaction Interaction.Prog Interaction.Runs Interaction.Threads Interaction.Caches
open Interaction.Memory (Byte)

/-- The masters whose transfers the APU should see, and those whose transfers it should not. -/
structure Expected where
  seen : Master → Prop
  unseen : Master → Prop

section Outline

variable (B : Board) (buf : Buffers) (expected : Expected) (tests : List Test)

/-- A readback that a test may print: the pattern or the bytes of the cache; the pattern if the
transfer was completed and should be seen, and the bytes of the cache if it should not. -/
structure Right (r : Readback) (test : Test) : Prop where
  values : r.values = [test.pattern.setWidth 32] ∨ r.values = [0xFF]
  seen : r.finished = true → expected.seen test.master → r.values = [test.pattern.setWidth 32]
  unseen : expected.unseen test.master → r.values = [0xFF]

/-- The readbacks are right for as many of the tests. -/
def Printed (readbacks : List Readback) : Prop :=
  ∃ done, done <+: tests ∧ List.Forall₂ (Right expected) readbacks done

/-- When the APU writes to the memory, sets up or starts a master, no other master is at work. -/
def Local : ApuOp → State → Prop
  | .load _, _ | .sleep _, _ | .awaitIdle _, _ | .pollForAck .., _ | .xilPrintf .., _ => True
  | .triggerIpi _, s => Quiet s ∧ Pending B buf s
  | _, s => Quiet s

/-- What the RPU does to the buffers, and when it acknowledges. -/
def RpuLocal : RpuOp → State → Prop
  | .store a v, s => ∃ p i, i < bufferByteSize ∧ s.isr = B.apuMask ∧ s.rpuDCache = false ∧
      Transferring B buf p s ∧ a = offset buf.dst i ∧ v = p
  | .clearInterruptStatus mask, s => s.isr = 0 ∨ mask = B.apuMask ∧
      ∀ p, Transferring B buf p s → Delivered B buf .rpu p s
  | _, _ => True

/-- The RPU is up when the APU calls on it. -/
def Up : (i : Cpu) → Call i → State → Prop
  | .apu, .triggerIpi _, s => s.rpuUp = true
  | _, _, _ => True

instance Up.decidable : ∀ i e s, Decidable (Up i e s)
  | .apu, .triggerIpi _, s => inferInstanceAs (Decidable (s.rpuUp = true))
  | .apu, .setUp _, _ | .apu, .sleep _, _ | .apu, .load _, _ | .apu, .store .., _
  | .apu, .dCacheFlushRange .., _ | .apu, .simpleTransfer .., _ | .apu, .zdmaStart _, _
  | .apu, .awaitIdle _, _ | .apu, .writeMessage .., _ | .apu, .pollForAck .., _
  | .apu, .xilPrintf .., _ | .rpu, _, _ => inferInstanceAs (Decidable True)

def AtPoint : Point → State → Prop
  | .reset, s => s.rpuUp = false
  | .enabled, s => s.rpuDCache = false ∧ s.rpuUp = false
  | .cleared, s => s.rpuDCache = false
  | .spinning, s => s.rpuDCache = false

def coherency : Outline CallAnswer Result State where
  rely
    | .apu => Steady B buf
    | .rpu => RpuSteady B buf
  guard := Up
  safe
    | .apu, e, s => Inv B buf s ∧ Printed expected tests s.readbacks ∧ Local B buf e s
    | .rpu, e, s => Inv B buf s ∧ RpuLocal B buf e s
  post
    | .apu, _, s => Inv B buf s ∧ List.Forall₂ (Right expected) s.readbacks tests
    | .rpu, point, s => Inv B buf s ∧ AtPoint point s

end Outline

variable {B : Board} {buf : Buffers} {expected : Expected} {tests : List Test}
  {s s' s'' : State} {p : Byte} {m : Master}

theorem Transferring.unique {p' : Byte} (h : Transferring B buf p s)
    (h' : Transferring B buf p' s) : p' = p := by
  have hMemory : s.cache.memory (offset buf.src 0) = p' := (h'.src 0 (by decide)).memory
  exact hMemory.symm.trans (h.src 0 (by decide)).memory

/-! ### The RPU -/

section Rpu

variable {α : Type} {post : α → State → Prop} {up : Bool}

abbrev Serves (B : Board) (buf : Buffers) (expected : Expected) (tests : List Test)
    (post : α → State → Prop) (prog : Rpu α) (s : State) : Prop :=
  Always (RpuSteady B buf) ((coherency B buf expected tests).sem (boardSystem B) .rpu)
    ((coherency B buf expected tests).safe .rpu) post prog s

theorem rpu_op {e : RpuOp} {rest : RpuAnswer e → Rpu α}
    (hSafe : ∀ s', RpuSteady B buf s s' → Inv B buf s' ∧ RpuLocal B buf e s')
    (hNext : ∀ s' choice answer s'', RpuSteady B buf s s' →
      rpuServe B e choice s' = some (answer, s'') →
      Serves B buf expected tests post (rest answer) s'') :
    Serves B buf expected tests post (rpuOp e >>= rest) s := by
  apply Always.ask_bind
  intro s' hMove
  refine ⟨hSafe s' hMove, ?_⟩
  rintro answer s'' ⟨-, choice, hPerform⟩
  exact hNext s' choice answer s'' hMove hPerform

/-- The data cache of the RPU is off. -/
structure Serving (B : Board) (buf : Buffers) (up : Bool) (s : State) : Prop where
  inv : Inv B buf s
  rpuDCache : s.rpuDCache = false
  rpuUp : s.rpuUp = up

theorem Serving.moved (h : Serving B buf up s) (hMove : RpuSteady B buf s s') :
    Serving B buf up s' :=
  ⟨hMove.inv h.inv, hMove.rpuDCache.trans h.rpuDCache, hMove.rpuUp.trans h.rpuUp⟩

/-- The handler has copied the bytes in `done`. -/
structure Copying (B : Board) (buf : Buffers) (up : Bool) (p : Byte) (done : List Nat)
    (s : State) : Prop extends Serving B buf up s where
  isr : s.isr = B.apuMask
  transferring : Transferring B buf p s
  copied : B.snooped s.settings .rpu = true → ∀ i ∈ done,
    s.cache.Shows B.line (· = p) (offset buf.dst i)

theorem Copying.moved {done : List Nat} (h : Copying B buf up p done s)
    (hMove : RpuSteady B buf s s') : Copying B buf up p done s' := by
  refine ⟨h.toServing.moved hMove, hMove.isr h.inv h.isr,
    hMove.transferring h.inv h.isr h.transferring, fun hSnooped i hDone => ?_⟩
  rw [hMove.settings h.inv h.isr] at hSnooped
  exact (hMove.keeps h.inv h.isr).shows (h.copied hSnooped i hDone)

theorem rpuServe_load {a : Address} {choice : Choice} {v : Byte} (hOff : s.rpuDCache = false)
    (h : rpuServe B (.load a) choice s = some (v, s')) :
    v = s.cache.masterRead B.line (B.snooped s.settings .rpu) a ∧ s' = s := by
  cases choice with
  | stale v =>
    simp only [rpuServe, hOff, Bool.false_eq_true, if_false] at h
    cases h
  | _ =>
    cases h
    exact ⟨rfl, rfl⟩

theorem rpuServe_store {a : Address} {v : Byte} {choice : Choice} {answer : Unit}
    (hOff : s.rpuDCache = false)
    (h : rpuServe B (.store a v) choice s = some (answer, s')) :
    s' = { s with cache := s.cache.masterWrite B.line (B.snooped s.settings .rpu) a v } := by
  cases choice with
  | stale v =>
    simp only [rpuServe, hOff, Bool.false_eq_true, if_false] at h
    cases h
  | _ =>
    cases h
    rfl

theorem Copying.store {done : List Nat} (h : Copying B buf up p done s) {i : Nat}
    (hi : i < bufferByteSize) {cache : Cached Address Address Byte}
    (hCache : cache =
      s.cache.masterWrite B.line (B.snooped s.settings .rpu) (offset buf.dst i) p) :
    Copying B buf up p (done ++ [i]) { s with cache } := by
  have hWritten := h.transferring.masterWrite hi (B.snooped s.settings .rpu) hCache
  have hPending := h.inv.pending h.isr
  have hInv : Inv B buf { s with cache } :=
    ⟨h.inv.isr, fun _ => ⟨hPending.job, hPending.message, p, hWritten⟩, h.inv.up⟩
  refine ⟨⟨hInv, h.rpuDCache, h.rpuUp⟩, h.isr, hWritten, fun hSnooped j hj => ?_⟩
  have hSnooped' : B.snooped s.settings .rpu = true := hSnooped
  subst hCache
  rcases List.mem_append.mp hj with hDone | hHere
  · exact (h.copied hSnooped j hDone).masterWrite _ fun _ => rfl
  · obtain rfl := List.mem_singleton.mp hHere
    rw [hSnooped']
    exact Cached.shows_masterWrite _ _ rfl

theorem copyBytes_serves (h : Copying B buf up p [] s) :
    Serves B buf expected tests (fun _ s' => Copying B buf up p (List.range bufferByteSize) s')
      (copyBytes (message buf)) s := by
  have hSize : (message buf).2.2.toNat = bufferByteSize := rfl
  rw [copyBytes, hSize]
  apply Always.forM_split (I := Copying B buf up p) (RpuSteady.refl B buf)
  case hStable => exact fun done s s' => Copying.moved
  case hInit => exact h
  intro done i rest s hList hHere
  have hi : i < bufferByteSize := by
    rw [← List.mem_range, hList]
    simp
  apply rpu_op
  · exact fun s' hMove => ⟨(hHere.moved hMove).inv, trivial⟩
  intro s₁ choice value s₂ hMove₁ hLoad
  have hHere₁ := hHere.moved hMove₁
  obtain ⟨hValue, rfl⟩ := rpuServe_load hHere₁.rpuDCache hLoad
  obtain rfl : value = p := hValue.trans ((hHere₁.transferring.src i hi).masterRead _)
  apply Always.ask
  intro s₃ hMove₃
  have hHere₃ := hHere₁.moved hMove₃
  refine ⟨⟨hHere₃.inv, value, i, hi, hHere₃.isr, hHere₃.rpuDCache, hHere₃.transferring, rfl, rfl⟩,
    ?_⟩
  rintro answer s₄ ⟨-, choice, hStore⟩ s₅ hMove₅
  obtain rfl := rpuServe_store hHere₃.rpuDCache hStore
  exact (hHere₃.store hi rfl).moved hMove₅

/-- With the whole buffer copied, the acknowledgement is due. -/
theorem clear_serves {rest : Unit → Rpu α} (h : Copying B buf up p (List.range bufferByteSize) s)
    (hNext : ∀ s', Serving B buf up s' → Serves B buf expected tests post (rest ()) s') :
    Serves B buf expected tests post (rpuOp (.clearInterruptStatus B.apuMask) >>= rest) s := by
  apply rpu_op
  · intro s' hMove
    have hHere := h.moved hMove
    refine ⟨hHere.inv, .inr ⟨rfl, fun p' hTransferring hSnooped i hi => ?_⟩⟩
    obtain rfl := hHere.transferring.unique hTransferring
    exact hHere.copied hSnooped i (List.mem_range.mpr hi)
  · intro s' choice answer s'' hMove hClear
    have hHere := h.moved hMove
    cases hClear
    have hZero : s'.isr &&& ~~~B.apuMask = 0 := by rw [hHere.isr, BitVec.and_not_self]
    apply hNext
    refine ⟨⟨.inl hZero, fun hPending => ?_, fun _ => hZero⟩, hHere.rpuDCache, hHere.rpuUp⟩
    exact absurd (hPending.symm.trans hZero) B.apuMask_ne

theorem forM_skip {ι : Type} {body : ι → Rpu Unit} {l : List ι} (h : ∀ i ∈ l, body i = pure ()) :
    l.forM body = pure () := by
  induction l with
  | nil => rfl
  | cons i l ih =>
    have hCons : (i :: l).forM body = body i >>= fun _ => l.forM body := rfl
    rw [hCons, h i List.mem_cons_self]
    exact ih fun j hj => h j (List.mem_cons_of_mem i hj)

theorem forM_append {ι : Type} {body : ι → Rpu Unit} (l l' : List ι) :
    (l ++ l').forM body = l.forM body >>= fun _ => l'.forM body := by
  induction l with
  | nil => rfl
  | cons i l ih =>
    have hCons : ∀ l : List ι, (i :: l).forM body = body i >>= fun _ => l.forM body := fun _ => rfl
    rw [List.cons_append, hCons, hCons, ih, bind_assoc]

/-- Of all the sources that the RPU looks through, it serves the APU. -/
theorem serveSources_apu :
    B.rpuTargets.forM (serveSource B.apuMask) = serveSource B.apuMask B.apuMask := by
  obtain ⟨before, after, hTargets⟩ := List.append_of_mem B.apu_mem
  have hNodup := B.rpuTargets_nodup
  rw [hTargets, List.perm_middle.nodup_iff, List.nodup_cons] at hNodup
  have hSkip : ∀ mask, mask ∈ before ++ after → serveSource B.apuMask mask = pure () := by
    intro mask hMem
    have hIn : mask ∈ B.rpuTargets := by
      rw [hTargets]
      exact List.perm_middle.mem_iff.mpr (List.mem_cons_of_mem _ hMem)
    have hOther : mask ≠ B.apuMask := fun hSame => hNodup.1 (hSame ▸ hMem)
    rw [serveSource, if_neg (not_not.mpr (B.apart mask hIn hOther))]
  have hCons : (B.apuMask :: after).forM (serveSource B.apuMask) =
      serveSource B.apuMask B.apuMask >>= fun _ => after.forM (serveSource B.apuMask) := rfl
  rw [hTargets, forM_append, forM_skip fun mask hMem => hSkip mask (List.mem_append_left _ hMem),
    pure_eq, ret_bind, hCons, forM_skip fun mask hMem => hSkip mask (List.mem_append_right _ hMem)]
  exact bind_ret _

theorem serveSource_serves (h : Serving B buf up s) (hIsr : s.isr = B.apuMask) :
    Serves B buf expected tests (fun _ => Serving B buf up) (serveSource B.apuMask B.apuMask)
      s := by
  rw [serveSource, BitVec.and_self, if_pos B.apuMask_ne]
  apply rpu_op
  · exact fun s' hMove => ⟨(h.moved hMove).inv, trivial⟩
  intro s₁ choice words s₂ hMove₁ hRead
  cases hRead
  have hHere := h.moved hMove₁
  have hIsr₁ := hMove₁.isr h.inv hIsr
  obtain ⟨-, hMessage, p, hTransferring⟩ := hHere.inv.pending hIsr₁
  rw [hMessage]
  apply Always.bind (RpuSteady.refl B buf)
  have hCopying : Copying B buf up p [] s₁ :=
    ⟨hHere, hIsr₁, hTransferring, fun _ i hi => (List.not_mem_nil hi).elim⟩
  apply (copyBytes_serves hCopying).mono fun _ _ => id
  intro _ s₃ hCopied
  rw [← bind_ret (rpuOp (.clearInterruptStatus B.apuMask))]
  apply clear_serves hCopied
  exact fun s₄ hServing s₅ hMove₅ => hServing.moved hMove₅

theorem ipiIntrHandler_serves (h : Serving B buf up s) :
    Serves B buf expected tests (fun _ => Serving B buf up) (ipiIntrHandler B.rpuTargets) s := by
  apply rpu_op
  · exact fun s' hMove => ⟨(h.moved hMove).inv, trivial⟩
  intro s₁ choice ipiSrcMask s₂ hMove₁ hStatus
  cases hStatus
  have hHere := h.moved hMove₁
  rcases hHere.inv.isr with hClear | hPending
  · have hSkip : B.rpuTargets.forM (serveSource s₁.isr) = pure () := by
      apply forM_skip
      intro mask _
      rw [hClear, serveSource, if_neg]
      exact not_not.mpr BitVec.zero_and
    rw [hSkip]
    exact fun s₃ hMove₃ => hHere.moved hMove₃
  · rw [hPending, serveSources_apu]
    exact serveSource_serves hHere hPending

theorem interrupt_serves {point : Point} (h : Serving B buf up s) :
    Serves B buf expected tests (fun point' s' => point' = point ∧ Serving B buf up s')
      (interrupt B point) s := by
  apply Always.bind (RpuSteady.refl B buf)
  apply (ipiIntrHandler_serves h).mono fun _ _ => id
  exact fun _ s' hServing s'' hMove => ⟨rfl, hServing.moved hMove⟩

/-- The calls that neither acknowledge nor store. -/
def Early : RpuOp → Prop
  | .clearInterruptStatus _ | .store .. => False
  | _ => True

theorem rpuServe_early {e : RpuOp} (hEarly : Early e) {choice : Choice} {answer : RpuAnswer e}
    (h : rpuServe B e choice s = some (answer, s')) :
    Same s s' ∧ s'.finished = s.finished ∧ s'.readbacks = s.readbacks ∧
      (s.rpuDCache = false → s'.rpuDCache = false) := by
  cases e with
  | clearInterruptStatus mask | store a v => exact hEarly.elim
  | load a =>
    cases choice with
    | stale v =>
      simp only [rpuServe] at h
      split at h
      · cases h
        exact ⟨⟨rfl, rfl, rfl, rfl, rfl, rfl⟩, rfl, rfl, id⟩
      · cases h
    | _ =>
      cases h
      exact ⟨⟨rfl, rfl, rfl, rfl, rfl, rfl⟩, rfl, rfl, id⟩
  | dCacheDisable =>
    cases h
    exact ⟨⟨rfl, rfl, rfl, rfl, rfl, rfl⟩, rfl, rfl, fun _ => rfl⟩
  | _ =>
    cases h
    exact ⟨⟨rfl, rfl, rfl, rfl, rfl, rfl⟩, rfl, rfl, id⟩

theorem rpuLocal_early {e : RpuOp} (hEarly : Early e) (s : State) : RpuLocal B buf e s := by
  cases e with
  | clearInterruptStatus mask | store a v => exact hEarly.elim
  | _ => trivial

theorem serving_op {e : RpuOp} {rest : RpuAnswer e → Rpu α} (h : Serving B buf up s)
    (hEarly : Early e) (hNext : ∀ answer s', Serving B buf up s' →
      Serves B buf expected tests post (rest answer) s') :
    Serves B buf expected tests post (rpuOp e >>= rest) s := by
  apply rpu_op
  · exact fun s' hMove => ⟨(h.moved hMove).inv, rpuLocal_early hEarly s'⟩
  intro s' choice answer s'' hMove hServe
  have hHere := h.moved hMove
  obtain ⟨hSame, -, -, hOff⟩ := rpuServe_early hEarly hServe
  exact hNext answer s'' ⟨hSame.inv hHere.inv, hOff hHere.rpuDCache, hSame.rpuUp.trans hHere.rpuUp⟩

theorem startUp_serves (hInv : Inv B buf s) (hDown : s.rpuUp = false) :
    Serves B buf expected tests (fun point s' => point = .enabled ∧ Serving B buf false s')
      (startUp B.allMask) s := by
  apply rpu_op
  · exact fun s' hMove => ⟨hMove.inv hInv, trivial⟩
  intro s₁ choice answer s₂ hMove₁ hRegister
  cases hRegister
  have hInv₁ := hMove₁.inv hInv
  have hDown₁ : s₁.rpuUp = false := hMove₁.rpuUp.trans hDown
  apply rpu_op
  · exact fun s' hMove => ⟨hMove.inv hInv₁, trivial⟩
  intro s₃ choice answer s₄ hMove₃ hDisable
  cases hDisable
  have hSame : Same s₃ { s₃ with rpuDCache := false } := ⟨rfl, rfl, rfl, rfl, rfl, rfl⟩
  have hServing : Serving B buf false { s₃ with rpuDCache := false } :=
    ⟨hSame.inv (hMove₃.inv hInv₁), rfl, hMove₃.rpuUp.trans hDown₁⟩
  apply serving_op hServing
  · trivial
  intro _ s₅ hServing
  apply serving_op hServing
  · trivial
  intro _ s₆ hServing
  apply serving_op hServing
  · trivial
  intro _ s₇ hServing
  apply serving_op hServing
  · trivial
  intro _ s₈ hServing
  apply serving_op hServing
  · trivial
  intro _ s₉ hServing
  apply serving_op hServing
  · trivial
  intro _ s₁₀ hServing
  apply serving_op hServing
  · trivial
  exact fun _ s' hServing s'' hMove => ⟨rfl, hServing.moved hMove⟩

/-- Nothing is pending for an RPU that is not up. -/
theorem clearExisting_serves (h : Serving B buf false s) :
    Serves B buf expected tests (fun point s' => point = .cleared ∧ Serving B buf false s')
      (clearExisting B.allMask) s := by
  apply rpu_op
  · intro s' hMove
    have hHere := h.moved hMove
    exact ⟨hHere.inv, .inl (hHere.inv.up hHere.rpuUp)⟩
  intro s₁ choice answer s₂ hMove₁ hClear s₃ hMove₃
  have hHere := h.moved hMove₁
  have hZero : s₁.isr = 0 := hHere.inv.up hHere.rpuUp
  cases hClear
  have hSame : Same s₁ { s₁ with isr := s₁.isr &&& ~~~B.allMask } := by
    refine ⟨rfl, rfl, rfl, rfl, ?_, rfl⟩
    rw [hZero]
    exact BitVec.zero_and
  have hServing : Serving B buf false { s₁ with isr := s₁.isr &&& ~~~B.allMask } :=
    ⟨hSame.inv hHere.inv, hHere.rpuDCache, hHere.rpuUp⟩
  exact ⟨rfl, hServing.moved hMove₃⟩

/-- What a call of the RPU leaves for the APU to rely on. -/
theorem rpu_steady {e : RpuOp} {choice : Choice} {answer : RpuAnswer e} (hInv : Inv B buf s)
    (hLocal : RpuLocal B buf e s) (h : rpuServe B e choice s = some (answer, s')) :
    Steady B buf s s' := by
  by_cases hEarly : Early e
  · obtain ⟨hSame, hFinished, hReadbacks, -⟩ := rpuServe_early hEarly h
    exact hSame.steady hFinished hReadbacks
  cases e with
  | store a v =>
    obtain ⟨p, i, hi, hIsr, hOff, hTransferring, rfl, rfl⟩ := hLocal
    obtain rfl := rpuServe_store hOff h
    have hNone := (hInv.pending hIsr).job
    have hBusy : s.isr ≠ 0 := hIsr ▸ B.apuMask_ne
    have hMove : ∀ {p}, Transferring B buf p s → Transferring B buf p { s with
        cache := s.cache.masterWrite B.line (B.snooped s.settings .rpu) (offset buf.dst i) v } := by
      intro p hHere
      obtain rfl := hHere.unique hTransferring
      exact hHere.masterWrite hi _ rfl
    have hPending := hInv.pending hIsr
    refine ⟨fun h => ⟨h.isr, fun _ => ⟨hNone, hPending.message, v, hMove hTransferring⟩, h.up⟩,
      rfl, rfl, rfl, fun hNone => ⟨hNone, rfl⟩, id, fun hQuiet => absurd hQuiet.isr hBusy, hMove,
      fun _ hSome => .inl ⟨_, hSome, rfl⟩, fun _ _ => .inl, fun _ h => ⟨?_, h.job, h.rpu⟩⟩
    have hPast := h.rpu hBusy
    have hDirty := h.dirty
    rw [DirtyCopy, hPast]
    exact hDirty.poke v
  | clearInterruptStatus mask =>
    cases h
    rcases hLocal with hZero | ⟨rfl, hDelivered⟩
    · have hSame : Same s { s with isr := s.isr &&& ~~~mask } := by
        refine ⟨rfl, rfl, rfl, rfl, ?_, rfl⟩
        rw [hZero]
        exact BitVec.zero_and
      exact hSame.steady rfl rfl
    · have hZero : s.isr &&& ~~~B.apuMask = 0 := by
        rcases hInv.isr with hClear | hPending
        · rw [hClear]
          exact BitVec.zero_and
        · rw [hPending]
          exact BitVec.and_not_self B.apuMask
      refine ⟨fun h => ⟨.inl hZero, fun hPending => ?_, fun _ => hZero⟩, rfl, rfl, rfl,
        fun hNone => ⟨hNone, rfl⟩, fun _ => hZero, fun _ => Keeps.refl B s.cache, fun h => ?_,
        fun _ hSome => .inl ⟨_, hSome, rfl⟩, fun _ hTransferring _ => .inr ⟨hZero, ?_⟩,
        fun _ h => ⟨h.dirty, h.job, fun hBusy => absurd hZero hBusy⟩⟩
      · exact absurd (hPending.symm.trans hZero) B.apuMask_ne
      · exact h.keeps (Keeps.refl B s.cache) rfl rfl
      · exact hDelivered _ hTransferring
  | _ => exact absurd trivial hEarly

end Rpu

end SoftwarePrototypes.CacheCoherency
