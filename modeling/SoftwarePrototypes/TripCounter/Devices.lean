import SoftwarePrototypes.TripCounter.Commands

/-! # The devices of the A72

Every access of `main` and of the interrupt handler is to a device that is open and mapped, in every
interleaving. Where `main` returns, every device that it opened has been closed; none twice,
exactly if no region failed to be mapped.
-/

namespace SoftwarePrototypes.TripCounter.Linux

open Interaction Interaction.Prog Interaction.Runs Interaction.Threads

/-- What has been done with the devices. -/
structure Held where
  opened : Device → Nat
  closed : Device → Nat
  mapped : Device → Bool
  unmapped : Bool

def State.held (s : State) : Held := ⟨s.opened, s.closed, s.mapped, s.unmapped⟩

def Held.Live (h : Held) (device : Device) : Prop :=
  h.mapped device = true ∧ h.closed device < h.opened device

def Held.AllLive (h : Held) : Prop := h.Live .ipi ∧ h.Live .ipiBuf

/-- Everything is closed; nothing is closed twice, exactly if all mappings were made. -/
structure Held.Released (h : Held) : Prop where
  closed : ∀ device, h.opened device ≤ h.closed device
  once : (∀ device, h.closed device = h.opened device) ↔ h.unmapped = false

/-- The accesses of a call are to devices that are open and mapped. -/
def MetalOp.Uses (e : MetalOp) (s : State) : Prop :=
  match e with
  | .write32 device _ _ | .read32 device _ => s.held.Live device
  | _ => True

def Uses : (i : Thread) → Call i → State → Prop
  | .plm, _, _ => True
  | .linux, e, s | .irq, e, s => e.Uses s

/-- The handler is registered with open and mapped devices only, and no device is closed then. -/
def MetalOp.Orderly (e : MetalOp) (s : State) : Prop :=
  match e with
  | .deviceClose _ => ¬ s.held.AllLive
  | .irqRegister _ => s.held.AllLive
  | _ => e.Uses s

theorem uses_of_live {e : MetalOp} {s : State} (hLive : s.held.AllLive) : e.Uses s := by
  have hDevice : ∀ device, s.held.Live device := by
    intro device
    cases device with
    | ipi => exact hLive.1
    | ipiBuf => exact hLive.2
  cases e with
  | write32 device offset value | read32 device offset => exact hDevice device
  | _ => trivial

def MetalOp.after (e : MetalOp) (answer : MetalAnswer e) (h : Held) : Held :=
  match e, answer with
  | .deviceOpen device, status =>
    if status = 0 then { h with opened := Function.update h.opened device (h.opened device + 1) }
    else h
  | .deviceIoRegion device, mapped =>
    if mapped then { h with mapped := Function.update h.mapped device true }
    else { h with unmapped := true }
  | .deviceClose device, _ =>
    { h with closed := Function.update h.closed device (h.closed device + 1) }
  | _, _ => h

def HandlerReady (s : State) : Prop := ∀ irq, s.registered irq = true → s.held.AllLive

/-- What the interrupt handler relies on. -/
structure Kept (s s' : State) : Prop where
  live : s.held.AllLive → s'.held.AllLive
  ready : HandlerReady s → HandlerReady s'

section Calls

variable {b : Board} {choice : Choice} {s s' s'' : State}

theorem Kept.refl (s : State) : Kept s s := ⟨id, id⟩

theorem Kept.trans (h : Kept s s') (h' : Kept s' s'') : Kept s s'' :=
  ⟨fun hLive => h'.live (h.live hLive), fun hReady => h'.ready (h.ready hReady)⟩

theorem kept_of_same (hHeld : s'.held = s.held) (hRegistered : s'.registered = s.registered) :
    Kept s s' where
  live hLive := hHeld ▸ hLive
  ready hReady irq hHere := by
    rw [hHeld]
    exact hReady irq (hRegistered ▸ hHere)

theorem held_store (s : State) (value : U32) (device : Device) (offset : U32) :
    (s.store value device offset).held = s.held ∧
      (s.store value device offset).registered = s.registered := by
  cases device with
  | ipiBuf => exact ⟨rfl, rfl⟩
  | ipi =>
    simp only [State.store]
    repeat' split
    all_goals exact ⟨rfl, rfl⟩

theorem held_note (s : State) (device : Device) (offset : U32) :
    (s.note device offset).held = s.held ∧ (s.note device offset).registered = s.registered := by
  rw [State.note]
  split <;> exact ⟨rfl, rfl⟩

theorem held_serve {e : MetalOp} {answer : MetalAnswer e}
    (h : metalServe b e choice s = some (answer, s')) : s'.held = e.after answer s.held := by
  cases e with
  | write32 device offset value =>
    obtain rfl := metalServe_write h
    exact (held_store s value device offset).1
  | read32 device offset =>
    obtain ⟨-, rfl⟩ := metalServe_read h
    exact (held_note s device offset).1
  | deviceOpen device | deviceIoRegion device =>
    cases choice <;> cases h
    simp only [MetalOp.after]
    split <;> rfl
  | _ =>
    cases choice <;> cases h
    rfl

theorem registered_serve {e : MetalOp} {answer : MetalAnswer e}
    (hRegister : ∀ irq, e ≠ .irqRegister irq)
    (h : metalServe b e choice s = some (answer, s')) {irq : Int}
    (hHere : s'.registered irq = true) : s.registered irq = true := by
  cases e with
  | write32 device offset value =>
    obtain rfl := metalServe_write h
    exact (held_store s value device offset).2 ▸ hHere
  | read32 device offset =>
    obtain ⟨-, rfl⟩ := metalServe_read h
    exact (held_note s device offset).2 ▸ hHere
  | irqRegister irq' => exact (hRegister irq' rfl).elim
  | irqUnregister irq' =>
    cases choice <;> cases h
    rcases eq_or_ne irq irq' with rfl | hOther
    · simp at hHere
    · simpa [Function.update_of_ne hOther] using hHere
  | deviceOpen device | deviceIoRegion device =>
    cases choice <;> cases h
    revert hHere
    split <;> exact id
  | _ =>
    cases choice <;> cases h
    exact hHere

theorem Held.AllLive.update {h : Held} (hLive : h.AllLive) (device : Device) :
    ({ h with opened := Function.update h.opened device (h.opened device + 1) } : Held).AllLive ∧
      ({ h with mapped := Function.update h.mapped device true } : Held).AllLive := by
  obtain ⟨⟨hMapped, hOpen⟩, hMapped', hOpen'⟩ := hLive
  cases device <;> simp [Held.AllLive, Held.Live, hMapped, hMapped', hOpen, hOpen'] <;> omega

theorem live_after {e : MetalOp} {answer : MetalAnswer e} (hOrderly : e.Orderly s)
    (hLive : s.held.AllLive) : (e.after answer s.held).AllLive := by
  cases e with
  | deviceClose device => exact (hOrderly hLive).elim
  | deviceOpen device =>
    simp only [MetalOp.after]
    split
    · exact (hLive.update device).1
    · exact hLive
  | deviceIoRegion device =>
    simp only [MetalOp.after]
    split
    · exact (hLive.update device).2
    · exact hLive
  | _ => exact hLive

/-- The interrupt handler does nothing to the devices. -/
theorem handler_same {e : MetalOp} {answer : MetalAnswer e} (hCall : HandlerCall e)
    (h : metalServe b e choice s = some (answer, s')) :
    s'.held = s.held ∧ s'.registered = s.registered := by
  cases e with
  | write32 device offset value =>
    obtain rfl := metalServe_write h
    exact held_store s value device offset
  | read32 device offset =>
    obtain ⟨-, rfl⟩ := metalServe_read h
    exact held_note s device offset
  | printCounter format seconds payload =>
    cases choice <;> cases h
    exact ⟨rfl, rfl⟩
  | _ => exact hCall.elim

theorem plm_same (ok : Bool) (e : PlmOp) (s : State) :
    (plmServe ok e s).2.held = s.held ∧ (plmServe ok e s).2.registered = s.registered := by
  cases e with
  | r5 e => cases e <;> cases ok <;> exact ⟨rfl, rfl⟩
  | _ => cases ok <;> exact ⟨rfl, rfl⟩

theorem kept_of_orderly {e : MetalOp} {answer : MetalAnswer e} (hOrderly : e.Orderly s)
    (h : metalServe b e choice s = some (answer, s')) : Kept s s' := by
  have hLive : s.held.AllLive → s'.held.AllLive := by
    rw [held_serve h]
    exact live_after hOrderly
  refine ⟨hLive, fun hReady irq hHere => hLive ?_⟩
  by_cases hRegister : ∃ irq', e = .irqRegister irq'
  · obtain ⟨irq', rfl⟩ := hRegister
    exact hOrderly
  · exact hReady irq (registered_serve (fun irq' hEq => hRegister ⟨irq', hEq⟩) h hHere)

end Calls

section Outline

def AtEnd : Point → State → Prop
  | .returned status, s => status ≠ 0 ∧ s.held.Released
  | _, s => s.held.AllLive

def orderly : Outline CallAnswer Result State where
  rely
    | .linux, s, s' => s'.held = s.held
    | .irq, s, s' => Kept s s'
    | .plm, _, _ => True
  guard _ _ _ := True
  safe
    | .linux, e, s => e.Orderly s
    | .irq, e, s => HandlerCall e ∧ s.held.AllLive
    | .plm, _, _ => True
  post
    | .linux, point, s => AtEnd point s
    | .irq, _, s => HandlerReady s
    | .plm, _, _ => True

variable {b : Board} {s s' : State} {h : Held}

abbrev Keeps {α : Type} (b : Board) (post : α → State → Prop) (p : A72 α) (s : State) : Prop :=
  Always (fun s s' => s'.held = s.held) (orderly.sem (demo b) .linux) MetalOp.Orderly post p s

theorem keeps_op {α : Type} {post : α → State → Prop} {e : MetalOp}
    {rest : MetalAnswer e → A72 α} (hHeld : s.held = h)
    (hOrderly : ∀ s', s'.held = h → e.Orderly s')
    (hNext : ∀ answer s', s'.held = e.after answer h → Keeps b post (rest answer) s') :
    Keeps b post (metal e >>= rest) s := by
  apply Always.ask_bind
  intro s' hMove
  have hHere : s'.held = h := hMove.trans hHeld
  refine ⟨hOrderly s' hHere, ?_⟩
  rintro answer s'' ⟨-, choice, hServe⟩
  apply hNext
  rw [held_serve hServe, hHere]

theorem keeps_bind {α β : Type} {post : β → State → Prop} {p : A72 α} {rest : α → A72 β}
    (hFirst : Keeps b (fun value s' => Keeps b post (rest value) s') p s) :
    Keeps b post (p >>= rest) s := Always.bind (fun s => (rfl : s.held = s.held)) hFirst

theorem keeps_ret {α : Type} {post : α → State → Prop} {value : α} (hHeld : s.held = h)
    (hPost : ∀ s', s'.held = h → post value s') : Keeps b post (.ret value) s :=
  fun s' hMove => hPost s' (hMove.trans hHeld)

/-- One value for each device. -/
def Device.pick {α : Type} (ipi ipiBuf : α) : Device → α
  | .ipi => ipi
  | .ipiBuf => ipiBuf

@[simp] theorem pick_ipi {α : Type} (x y : α) : Device.pick x y .ipi = x := rfl

@[simp] theorem pick_ipiBuf {α : Type} (x y : α) : Device.pick x y .ipiBuf = y := rfl

@[simp] theorem update_pick_ipi {α : Type} (x y z : α) :
    Function.update (Device.pick x y) .ipi z = Device.pick z y := by
  funext device
  cases device <;> rfl

@[simp] theorem update_pick_ipiBuf {α : Type} (x y z : α) :
    Function.update (Device.pick x y) .ipiBuf z = Device.pick x z := by
  funext device
  cases device <;> rfl

def Held.close (h : Held) (isOpen : Bool) (device : Device) : Held :=
  if isOpen then { h with closed := Function.update h.closed device (h.closed device + 1) } else h

@[simp] theorem close_false (h : Held) (device : Device) : h.close false device = h := rfl

@[simp] theorem close_ipi (opened mapped unmapped) (x y : Nat) :
    (⟨opened, Device.pick x y, mapped, unmapped⟩ : Held).close true .ipi =
      ⟨opened, Device.pick (x + 1) y, mapped, unmapped⟩ :=
  congrArg (Held.mk opened · mapped unmapped) (update_pick_ipi x y (x + 1))

@[simp] theorem close_ipiBuf (opened mapped unmapped) (x y : Nat) :
    (⟨opened, Device.pick x y, mapped, unmapped⟩ : Held).close true .ipiBuf =
      ⟨opened, Device.pick x (y + 1), mapped, unmapped⟩ :=
  congrArg (Held.mk opened · mapped unmapped) (update_pick_ipiBuf x y (y + 1))

/-- What `deinit_ipi` still closes releases everything. -/
structure Failed (g : Globals) (h : Held) : Prop where
  ipiIo : g.ipiIo = false
  mapped : h.mapped .ipi = false
  released : ((h.close g.ipiDev .ipi).close g.ipiBufDev .ipiBuf).Released

def Initialised (result : Int × Globals) (s : State) : Prop :=
  if result.1 = 0 then s.held.AllLive else Failed result.2 s.held

theorem not_live (hMapped : h.mapped .ipi = false) (hHeld : s.held = h) : ¬ s.held.AllLive := by
  rintro ⟨⟨hIpi, -⟩, -⟩
  rw [hHeld, hMapped] at hIpi
  cases hIpi

theorem keeps_printf {α : Type} {post : α → State → Prop} {message : String}
    {rest : Unit → A72 α} (hHeld : s.held = h)
    (hNext : ∀ s', s'.held = h → Keeps b post (rest ()) s') :
    Keeps b post (metal (.printf message) >>= rest) s :=
  keeps_op hHeld (fun _ _ => trivial) fun _ => hNext

theorem keeps_close {α : Type} {post : α → State → Prop} {device : Device}
    {rest : Unit → A72 α} (hHeld : s.held = h) (hMapped : h.mapped .ipi = false)
    (hNext : ∀ s', s'.held = h.close true device → Keeps b post (rest ()) s') :
    Keeps b post (metal (.deviceClose device) >>= rest) s :=
  keeps_op hHeld (fun _ hHere => not_live hMapped hHere) fun _ => hNext

theorem closeDevice_keeps {post : Unit → State → Prop} {isOpen : Bool} {device : Device}
    (hHeld : s.held = h) (hMapped : h.mapped .ipi = false)
    (hPost : ∀ s', s'.held = h.close isOpen device → post () s') :
    Keeps b post (closeDevice isOpen device) s := by
  rw [closeDevice]
  cases isOpen with
  | false => exact keeps_ret hHeld hPost
  | true =>
    rw [if_pos rfl, ← bind_ret (metal _)]
    exact keeps_close hHeld hMapped fun s' hHere => keeps_ret hHere hPost

theorem close_mapped (h : Held) (isOpen : Bool) (device : Device) :
    (h.close isOpen device).mapped = h.mapped := by
  rw [Held.close]
  split <;> rfl

theorem deinitIpi_keeps {g : Globals} (hHeld : s.held = h) (hIo : g.ipiIo = false)
    (hMapped : h.mapped .ipi = false) :
    Keeps b (fun _ s' => s'.held = (h.close g.ipiDev .ipi).close g.ipiBufDev .ipiBuf)
      (deinitIpi g) s := by
  have hDisable : disableIpi g.ipiIo = pure () := by
    rw [hIo]
    rfl
  rw [deinitIpi, hDisable, pure_eq, ret_bind]
  apply keeps_op hHeld
  · exact fun _ _ => trivial
  intro _ s₁ h₁
  apply keeps_op h₁
  · exact fun _ _ => trivial
  intro _ s₂ h₂
  apply keeps_bind
  apply closeDevice_keeps h₂ hMapped
  intro s₃ h₃
  apply closeDevice_keeps h₃
  · rw [close_mapped]
    exact hMapped
  · exact fun _ => id

theorem out_keeps {status : Int} {g : Globals} (hStatus : status ≠ 0) (hHeld : s.held = h)
    (hFailed : Failed g h) : Keeps b AtEnd (out status g) s := by
  apply keeps_bind
  apply (deinitIpi_keeps hHeld hFailed.ipiIo hFailed.mapped).mono fun _ _ => id
  intro _ s₁ h₁
  apply keeps_op h₁
  · exact fun _ _ => trivial
  intro _ s₂ h₂
  refine keeps_ret h₂ fun s₃ h₃ => ⟨hStatus, ?_⟩
  rw [h₃]
  exact hFailed.released

/-- Nothing has been opened. -/
def noneHeld : Held := ⟨Device.pick 0 0, Device.pick 0 0, Device.pick false false, false⟩

theorem released_pick {x y m n : Nat} {ipi ipiBuf unmapped : Bool} (hIpi : x ≤ m) (hBuf : y ≤ n)
    (hOnce : m = x ∧ n = y ↔ unmapped = false) :
    (⟨Device.pick x y, Device.pick m n, Device.pick ipi ipiBuf, unmapped⟩ : Held).Released where
  closed device := by cases device <;> assumption
  once := by
    rw [← hOnce]
    exact ⟨fun hAll => ⟨hAll .ipi, hAll .ipiBuf⟩, fun hBoth device => by
      cases device
      · exact hBoth.1
      · exact hBoth.2⟩

theorem failed_pick {x y m n : Nat} {ipiDev ipiBufDev ipiBuf unmapped : Bool}
    (hIpi : x ≤ m + ipiDev.toNat) (hBuf : y ≤ n + ipiBufDev.toNat)
    (hOnce : m + ipiDev.toNat = x ∧ n + ipiBufDev.toNat = y ↔ unmapped = false) :
    Failed ⟨ipiDev, false, ipiBufDev, 0⟩
      ⟨Device.pick x y, Device.pick m n, Device.pick false ipiBuf, unmapped⟩ where
  ipiIo := rfl
  mapped := rfl
  released := by
    cases ipiDev <;> cases ipiBufDev <;> simp only [close_false, close_ipi, close_ipiBuf] <;>
      exact released_pick hIpi hBuf hOnce

theorem failed_none : Failed ⟨false, false, false, 0⟩ noneHeld :=
  failed_pick (by decide) (by decide) (by decide)

theorem keeps_failed {status : Int} {g : Globals} (hStatus : status ≠ 0) (hFailed : Failed g h)
    (hHeld : s.held = h) : Keeps b Initialised (.ret (status, g)) s := by
  refine keeps_ret hHeld fun s' hHere => ?_
  rw [Initialised, if_neg hStatus, hHere]
  exact hFailed

/-! ### The exits of `init_ipi` -/

/-- A device that cannot be opened. -/
theorem openFailed_keeps {status : Int} {g : Globals} {message : String} (hStatus : status ≠ 0)
    (hFailed : Failed g h) (hHeld : s.held = h) : Keeps b Initialised (do
      metal (.printf message)
      pure (status, g)) s :=
  keeps_printf hHeld fun _ => keeps_failed hStatus hFailed

/-- The region of the buffers that cannot be mapped: their device is closed at once, and again in
`deinit_ipi`. -/
theorem bufferUnmapped_keeps {message : String}
    (hHeld : s.held = ⟨Device.pick 0 1, Device.pick 0 0, Device.pick false false, true⟩) :
    Keeps b Initialised (do
      metal (.printf message)
      metal (.deviceClose .ipiBuf)
      pure (-enodev, ⟨false, false, true, 0⟩)) s := by
  apply keeps_printf hHeld
  intro s₁ h₁
  apply keeps_close h₁ rfl
  intro s₂ h₂
  apply keeps_failed (by decide) _ h₂
  rw [close_ipiBuf]
  exact failed_pick (by decide) (by decide) (by decide)

/-- The region of the registers that cannot be mapped: both devices are closed twice. -/
theorem registersUnmapped_keeps {message : String}
    (hHeld : s.held = ⟨Device.pick 1 1, Device.pick 0 0, Device.pick false true, true⟩) :
    Keeps b Initialised (do
      metal (.printf message)
      metal (.deviceClose .ipiBuf)
      metal (.deviceClose .ipi)
      pure (-enodev, ⟨true, false, true, 0⟩)) s := by
  apply keeps_printf hHeld
  intro s₁ h₁
  apply keeps_close h₁ rfl
  intro s₂ h₂
  apply keeps_close h₂ rfl
  intro s₃ h₃
  apply keeps_failed (by decide) _ h₃
  rw [close_ipiBuf, close_ipi]
  exact failed_pick (by decide) (by decide) (by decide)

/-- The handler is registered once both regions are mapped. -/
theorem register_keeps (hLive : s.held.AllLive) : Keeps b Initialised (do
    let ipiIrq ← metal .irqInfo
    metal (.write32 .ipi ipiIdrOffset remoteIpiMask)
    metal (.irqDisable ipiIrq)
    metal (.irqRegister ipiIrq)
    pure (0, ⟨true, true, true, ipiIrq⟩)) s := by
  have hStays : ∀ s' : State, s'.held = s.held → s'.held.AllLive := fun s' hHere => hHere ▸ hLive
  apply keeps_op rfl
  · exact fun _ _ => trivial
  intro ipiIrq s₁ h₁
  apply keeps_op h₁
  · exact fun s' hHere => (hStays s' hHere).1
  intro _ s₂ h₂
  apply keeps_op h₂
  · exact fun _ _ => trivial
  intro _ s₃ h₃
  apply keeps_op h₃
  · exact hStays
  exact fun _ s₄ h₄ => keeps_ret h₄ hStays

theorem initIpi_keeps (hHeld : s.held = noneHeld) : Keeps b Initialised initIpi s := by
  apply keeps_op hHeld
  · exact fun _ _ => trivial
  intro status₁ s₁ h₁
  split
  case isTrue hFailed =>
    rw [MetalOp.after, if_neg hFailed] at h₁
    exact openFailed_keeps hFailed failed_none h₁
  case isFalse hOpen =>
  replace h₁ : s₁.held =
      ⟨Device.pick 0 1, Device.pick 0 0, Device.pick false false, false⟩ := by
    simpa [MetalOp.after, noneHeld, not_not.mp hOpen] using h₁
  apply keeps_op h₁
  · exact fun _ _ => trivial
  intro mapped₂ s₂ h₂
  split
  case isTrue hUnmapped =>
    apply bufferUnmapped_keeps
    simpa [MetalOp.after, hUnmapped] using h₂
  case isFalse hMapped =>
  replace h₂ : s₂.held =
      ⟨Device.pick 0 1, Device.pick 0 0, Device.pick false true, false⟩ := by
    simpa [MetalOp.after, eq_true_of_ne_false hMapped] using h₂
  apply keeps_op h₂
  · exact fun _ _ => trivial
  intro status₃ s₃ h₃
  split
  case isTrue hFailed =>
    rw [MetalOp.after, if_neg hFailed] at h₃
    exact openFailed_keeps hFailed (failed_pick (by decide) (by decide) (by decide)) h₃
  case isFalse hOpen' =>
  replace h₃ : s₃.held =
      ⟨Device.pick 1 1, Device.pick 0 0, Device.pick false true, false⟩ := by
    simpa [MetalOp.after, not_not.mp hOpen'] using h₃
  apply keeps_op h₃
  · exact fun _ _ => trivial
  intro mapped₄ s₄ h₄
  split
  case isTrue hUnmapped =>
    apply registersUnmapped_keeps
    simpa [MetalOp.after, hUnmapped] using h₄
  case isFalse hMapped' =>
  replace h₄ : s₄.held =
      ⟨Device.pick 1 1, Device.pick 0 0, Device.pick true true, false⟩ := by
    simpa [MetalOp.after, eq_true_of_ne_false hMapped'] using h₄
  apply register_keeps
  rw [h₄]
  exact ⟨⟨rfl, Nat.zero_lt_one⟩, rfl, Nat.zero_lt_one⟩

/-! ### The rest of `main` -/

theorem main_keeps (hHeld : s.held = noneHeld) : Keeps b AtEnd main s := by
  apply keeps_op hHeld
  · exact fun _ _ => trivial
  intro status s₁ h₁
  split
  case isTrue hFailed =>
    apply keeps_op h₁
    · exact fun _ _ => trivial
    intro _ s₂ h₂
    apply out_keeps hFailed h₂
    exact failed_none
  case isFalse =>
  apply keeps_bind
  apply (initIpi_keeps h₁).mono fun _ _ => id
  rintro ⟨status, g⟩ s₂ h₂
  dsimp only
  split
  case isTrue hFailed =>
    rw [Initialised, if_neg hFailed] at h₂
    exact out_keeps hFailed rfl h₂
  case isFalse hDone =>
  rw [Initialised, if_pos (not_not.mp hDone)] at h₂
  apply keeps_op rfl
  · exact fun _ _ => trivial
  intro _ s₃ h₃
  apply keeps_op h₃
  · intro s' hHere
    have hLive : s'.held.AllLive := hHere ▸ h₂
    exact hLive.1
  intro _ s₄ h₄
  refine keeps_ret h₄ fun s₅ h₅ => ?_
  have hLive : s₅.held.AllLive := h₅ ▸ h₂
  exact hLive

theorem printCounter_keeps (format : String) (counter : U32) (hHeld : s.held = h) :
    Keeps b (fun _ s' => s'.held = h) (printCounter format counter) s := by
  rw [printCounter]
  split
  · rw [← bind_ret (metal _)]
    apply keeps_op hHeld
    · exact fun _ _ => trivial
    · exact fun _ s₁ h₁ => keeps_ret h₁ fun _ => id
  · exact keeps_ret hHeld fun _ => id

theorem sendIpiMsg_keeps (counter : U32) (hLive : s.held.AllLive) :
    Keeps b AtEnd (sendIpiMsg counter) s := by
  have hStays : ∀ s' : State, s'.held = s.held → s'.held.AllLive := fun s' hHere => hHere ▸ hLive
  apply keeps_op rfl
  · exact fun s' hHere => (hStays s' hHere).2
  intro _ s₁ h₁
  apply keeps_op h₁
  · exact fun s' hHere => (hStays s' hHere).2
  intro _ s₂ h₂
  apply keeps_op h₂
  · exact fun s' hHere => (hStays s' hHere).1
  exact fun _ s₃ h₃ => keeps_ret h₃ hStays

theorem observe_keeps (hLive : s.held.AllLive) : Keeps b AtEnd observe s := by
  have hStays : ∀ s' : State, s'.held = s.held → s'.held.AllLive := fun s' hHere => hHere ▸ hLive
  apply keeps_op rfl
  · exact fun s' hHere => (hStays s' hHere).1
  intro val s₁ h₁
  split
  · apply keeps_op h₁
    · exact fun s' hHere => (hStays s' hHere).2
    intro tripCounter s₂ h₂
    apply keeps_bind
    apply (printCounter_keeps _ _ h₂).mono fun _ _ => id
    intro _ s₃ h₃
    apply keeps_op h₃
    · exact fun _ _ => trivial
    exact fun _ s₄ h₄ => keeps_ret h₄ hStays
  · exact keeps_ret h₁ hStays

theorem handler_keeps (hLive : s.held.AllLive) (hReady : HandlerReady s) :
    orderly.Follows (demo b) .irq ipiIrqHandler s := by
  have hHolds : Always Kept (orderly.sem (demo b) .irq)
      (fun e s => HandlerCall e ∧ s.held.AllLive)
      (fun _ s => s.held.AllLive ∧ HandlerReady s) ipiIrqHandler s := by
    apply Always.of_invariant (I := fun s => s.held.AllLive ∧ HandlerReady s) _ _ _ handler_only
      ⟨hLive, hReady⟩
    · exact fun s s' hHere hMove => ⟨hMove.live hHere.1, hMove.ready hHere.2⟩
    · rintro e s answer s' hCall hHere ⟨-, choice, hServe⟩
      obtain ⟨hHeld, hRegistered⟩ := handler_same hCall hServe
      have hKept := kept_of_same hHeld hRegistered
      exact ⟨hKept.live hHere.1, hKept.ready hHere.2⟩
    · exact fun _ _ hCall hHere => ⟨hCall, hHere.1⟩
  exact hHolds.mono (fun _ _ => id) fun _ _ hEnd => hEnd.2

/-! ### One step of a thread -/

/-- A step that leaves the devices and the registered handlers alone. -/
theorem rely_of_same (hSame : s'.held = s.held ∧ s'.registered = s.registered) (j : Thread) :
    orderly.rely j s s' := by
  cases j with
  | linux => exact hSame.1
  | irq => exact kept_of_same hSame.1 hSame.2
  | plm => trivial

theorem linux_call {choice : Choice} {e : MetalOp} {answer : MetalAnswer e}
    (hOrderly : e.Orderly s) (hServe : metalServe b e choice s = some (answer, s')) {j : Thread}
    (hOther : j ≠ .linux) : orderly.rely j s s' := by
  cases j with
  | linux => exact absurd rfl hOther
  | irq => exact kept_of_orderly hOrderly hServe
  | plm => trivial

theorem plm_same_call {choice : Choice} {e : PlmOp} {answer : PlmAnswer e}
    (hPerform : (demo b).perform .plm e choice s = some (answer, s')) :
    s'.held = s.held ∧ s'.registered = s.registered := by
  obtain ⟨ok, -, hServe⟩ := plm_performed hPerform
  have hSame := plm_same ok e s
  rw [hServe] at hSame
  exact hSame

theorem plm_same_again {choice : Choice} {st : Statics} {code : Plm Statics}
    (hAgain : (demo b).again .plm st choice s = some (code, s')) :
    s'.held = s.held ∧ s'.registered = s.registered := by
  obtain ⟨-, rfl⟩ | ⟨-, -, rfl⟩ | ⟨payload, -, rfl⟩ := plm_given hAgain <;> exact ⟨rfl, rfl⟩

theorem linux_keeps_again {choice : Choice} {point : Point} {code : A72 Point}
    (hPost : AtEnd point s) (hAgain : (demo b).again .linux point choice s = some (code, s')) :
    Keeps b AtEnd code s' ∧ s' = s := by
  obtain ⟨hOn, rfl, rfl⟩ := linux_given hAgain
  refine ⟨?_, rfl⟩
  cases point with
  | returned status => exact (hOn status rfl).elim
  | observing => exact observe_keeps hPost
  | top tripCounter =>
    rw [mainLoop]
    split
    · exact sendIpiMsg_keeps _ hPost
    · refine keeps_ret rfl fun s₁ hHere => ?_
      have hLive : s₁.held.AllLive := hHere ▸ hPost
      exact hLive

theorem handler_keeps_again {choice : Choice} {code : A72 Unit} (hReady : HandlerReady s)
    (hAgain : (demo b).again .irq () choice s = some (code, s')) :
    orderly.Follows (demo b) .irq code s' ∧ s' = s := by
  obtain ⟨hRegistered, -, rfl, rfl⟩ := irq_given hAgain
  exact ⟨handler_keeps (hReady b.irqInfo hRegistered) hReady, rfl⟩

theorem orderly_sound (b : Board) : orderly.Sound (demo b) where
  refl i s := rely_of_same ⟨rfl, rfl⟩ i
  trans i s s' s'' hMove hMove' := by
    cases i with
    | linux => exact Eq.trans hMove' hMove
    | irq => exact Kept.trans hMove hMove'
    | plm => trivial
  call i e choice s answer s' hSafe _ hPerform j hOther := by
    cases i with
    | linux => exact linux_call hSafe hPerform hOther
    | irq => exact rely_of_same (handler_same hSafe.1 hPerform) j
    | plm => exact rely_of_same (plm_same_call hPerform) j
  again i value choice s code s' hPost hAgain := by
    cases i with
    | plm =>
      refine ⟨Always.of_forall (fun _ _ => trivial) (fun _ _ => trivial) code s', ?_⟩
      exact fun j _ => rely_of_same (plm_same_again hAgain) j
    | linux =>
      obtain ⟨hKeeps, rfl⟩ := linux_keeps_again hPost hAgain
      exact ⟨hKeeps, fun j _ => rely_of_same ⟨rfl, rfl⟩ j⟩
    | irq =>
      obtain ⟨hFollows, rfl⟩ := handler_keeps_again hPost hAgain
      exact ⟨hFollows, fun j _ => rely_of_same ⟨rfl, rfl⟩ j⟩
  surroundings choice s s' hMoved j := by
    obtain ⟨mask, rfl⟩ := triggered hMoved
    apply rely_of_same
    exact ⟨rfl, rfl⟩

theorem uses_of_safe (i : Thread) (e : Call i) (s : State) (hSafe : orderly.safe i e s) :
    Uses i e s := by
  cases i with
  | plm => trivial
  | irq => exact uses_of_live hSafe.2
  | linux =>
    cases e with
    | write32 device offset value | read32 device offset => exact hSafe
    | _ => trivial

theorem started_orderly (message : U32 → U32) : orderly.Holds (demo b) (started message) := by
  intro i
  cases i with
  | plm => exact fun _ _ => trivial
  | linux =>
    apply main_keeps
    simp only [State.held, noneHeld, started]
    congr <;> funext device <;> cases device <;> rfl
  | irq =>
    have hReady : HandlerReady (started message).shared := nofun
    exact fun s' hMove => hMove.ready hReady

/-- In every interleaving the devices are used while they are open and mapped; and if `main` has
returned, with an error, they have been closed, each once exactly if every region was mapped. -/
theorem devices_released {message : U32 → U32} {labels : List (Label Thread Choice)}
    {final : Config CallAnswer Result State}
    (hRun : run (step (demo b)) (started message) labels = some final) :
    Along (step (demo b)) (AtCall Uses) (started message) labels ∧
      ∀ status, final.code .linux = .ret (.returned status) →
        status ≠ 0 ∧ final.shared.held.Released := by
  have hSound := orderly_sound b
  have hHolds := started_orderly (b := b) message
  constructor
  · apply (hSound.always hHolds fun _ _ _ => trivial).mono
    exact fun _ _ hCall => hCall.mono uses_of_safe
  · intro status hCode
    have hEnd := hSound.always_run hHolds (fun _ _ _ => trivial) hRun .linux
    rw [hCode] at hEnd
    exact hEnd final.shared rfl

end Outline

/-! ### A region that cannot be mapped -/

/-- The second `metal_device_io_region` returns `NULL`, and `main` runs to its end. -/
def unmappedIpi : List (Label Thread Choice) :=
  .call .linux (.result 0) :: .call .linux (.result 0) :: goOn .linux 1 ++
    .call .linux (.result 0) :: .call .linux (.proceed false) :: goOn .linux 8

/-- Both devices have been closed twice. -/
theorem devices_released_unmapped : ∃ final,
    run (step (demo a72Sends)) (started fun _ => 7) unmappedIpi = some final ∧
      final.shared.closed .ipi = 2 ∧ final.shared.held.Released := by
  have hEnd : (run (step (demo a72Sends)) (started fun _ => 7) unmappedIpi).map
      (fun C => (C.shared.closed .ipi, (C.code .linux).returned)) =
        some (2, some (.returned (-19))) := by
    decide +kernel
  obtain ⟨final, hRun, hResult⟩ := Option.map_eq_some_iff.mp hEnd
  obtain ⟨hClosed, hReturned⟩ := Prod.mk.inj hResult
  have hReleased := (devices_released hRun).2 (-19) (eq_ret_of_returned hReturned)
  exact ⟨final, hRun, hClosed, hReleased.2⟩

end SoftwarePrototypes.TripCounter.Linux
