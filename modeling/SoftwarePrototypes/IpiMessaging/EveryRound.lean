import Mathlib.Algebra.Group.Nat.Defs
import Mathlib.Logic.Relation
import SoftwarePrototypes.IpiMessaging.Pmu

/-! # Every round reaches every CPU

The PMU compares the low half of a response with the whole counter, so from the round 2^16 on it
takes the response of RPU 0 for invalid and sends to nobody else.
-/

namespace SoftwarePrototypes.IpiMessaging

open Interaction Interaction.Prog Relation

/-- One run of the handler of a CPU. That of RPU 1 is a callback of the mailbox library, which
acknowledges. -/
def handled (targets : List Source) (ch : Channel) (p : Port) : Port :=
  let p := (exec (serve ch true) (handler targets ch) (p.note .enter)).2
  if ch = .rpu1 then p.clear pmuMask else p

/-- What goes on beside the PMU: CPUs handle what is pending, other sources send and trigger. -/
inductive Remote (targets : List Source) : (Channel → Port) → (Channel → Port) → Prop where
  | handles (ports : Channel → Port) (ch : Channel) (h : (ports ch).isr &&& allMask ≠ 0) :
      Remote targets ports (Function.update ports ch (handled targets ch (ports ch)))
  | sends (ports : Channel → Port) (ch : Channel) {i : Source} (value : U32) (h : i ≠ pmu) :
      Remote targets ports (Function.update ports ch ((ports ch).send i value))
  | triggers (ports : Channel → Port) (ch : Channel) {i : Source} (h : i ≠ pmu) :
      Remote targets ports (Function.update ports ch ((ports ch).trigger i))

abbrev Meanwhile (targets : List Source) : (Channel → Port) → (Channel → Port) → Prop :=
  ReflTransGen (Remote targets)

/-- No call of the driver fails, and each poll lasts until the handler has acknowledged. -/
def Prompt (targets : List Source) : Sem PmuOp PmuAnswer (Channel → Port) :=
  fun e ports answer ports' => ∃ waited, Meanwhile targets ports waited ∧
    (∀ ch timeOut, e = .ipiPollForAck ch timeOut → (waited ch).pending pmu = false) ∧
    answer = (pmuServe true e waited).1 ∧ ports' = (pmuServe true e waited).2

/-- The message of a round has been written to every CPU, every response has been accepted, and
the counter has moved on. -/
structure AllReached (cnt value : U32) (ports : Channel → Port) : Prop where
  next : value = cnt + 1
  sent : ∀ ch, .sent pmu cnt ∈ (ports ch).log
  accepted : ∀ ch, .received cnt ∈ (ports ch).log

/-- What the PMU leaves in a log for the messages it sends. -/
def Event.ofPmu : Event → Bool
  | .sent i _ => i = pmu
  | .received _ => true
  | _ => false

/-- What the PMU can rely on at a port, whatever goes on there beside it. -/
structure Echoing (p p' : Port) : Prop where
  request : p'.request pmu = p.request pmu
  quiet : p.pending pmu = false → p'.pending pmu = false
  echoed : p.pending pmu = true → p'.pending pmu = false → p'.response pmu = p'.request pmu
  kept : p.response pmu = p.request pmu → p'.response pmu = p'.request pmu
  log : p'.log.filter Event.ofPmu = p.log.filter Event.ofPmu

/-- The port after a source has been read, answered and cleared. -/
def Port.answer (p : Port) (i : Source) (mask : U32) : Port :=
  ((p.note (.read i (p.request i))).respond i (p.request i)).clear mask

section Ports

variable {p p' p'' : Port} {i : Source} {targets : List Source} {ports ports' : Channel → Port}

theorem Echoing.refl (p : Port) : Echoing p p where
  request := rfl
  quiet := id
  echoed hPending hClear := absurd (hClear.symm.trans hPending) Bool.false_ne_true
  kept := id
  log := rfl

theorem Echoing.trans (h : Echoing p p') (h' : Echoing p' p'') : Echoing p p'' where
  request := h'.request.trans h.request
  quiet hQuiet := h'.quiet (h.quiet hQuiet)
  echoed hPending hClear := by
    cases hBetween : p'.pending pmu with
    | false => exact h'.kept (h.echoed hPending hBetween)
    | true => exact h'.echoed hBetween hClear
  kept hKept := h'.kept (h.kept hKept)
  log := h'.log.trans h.log

theorem Echoing.mem_log (h : Echoing p p') {event : Event} (hOf : event.ofPmu = true) :
    event ∈ p'.log ↔ event ∈ p.log := by
  have hMem : event ∈ p'.log.filter Event.ofPmu ↔ event ∈ p.log.filter Event.ofPmu := by
    rw [h.log]
  simpa [hOf] using hMem

theorem other_echoing (event : Event) (hLog : p'.log = event :: p.log)
    (hOf : event.ofPmu = false) (hRequest : p'.request pmu = p.request pmu)
    (hResponse : p'.response pmu = p.response pmu) (hPending : p'.pending pmu = p.pending pmu) :
    Echoing p p' where
  request := hRequest
  quiet := hPending.trans
  echoed hThere hClear :=
    absurd (hClear.symm.trans (hPending.trans hThere)) Bool.false_ne_true
  kept hKept := hResponse.trans (hKept.trans hRequest.symm)
  log := by rw [hLog, List.filter_cons_of_neg (by simp [hOf])]

theorem enter_echoing : Echoing p (p.note .enter) := other_echoing .enter rfl rfl rfl rfl rfl

theorem pending_answer (mask : U32) :
    (p.answer i mask).pending pmu = (p.pending pmu && !mask.getLsbD pmu) := by
  rw [Port.answer, pending_clear, pending_respond, pending_note]

theorem answer_echoing (mask : U32) (h : mask.getLsbD pmu = true → i = pmu) :
    Echoing p (p.answer i mask) where
  request := rfl
  quiet hQuiet := by rw [pending_answer, hQuiet, Bool.false_and]
  echoed hPending hClear := by
    rw [pending_answer, hPending, Bool.true_and] at hClear
    obtain rfl := h (by simpa using hClear)
    exact Function.update_self pmu (p.request pmu) p.response
  kept hKept := by
    rcases eq_or_ne i pmu with rfl | hNe
    · exact Function.update_self pmu (p.request pmu) p.response
    · exact (Function.update_of_ne hNe.symm (p.request i) p.response).trans hKept
  log := rfl

/-! ### The handlers, run on their own -/

theorem exec_echoHandler {ch : Channel} {a : Addresses} (h : ch.addresses = some a) :
    (exec (serve ch true) (echoHandler a) p).2 = p.answer pmu (~~~0) := by
  simp [echoHandler, op, exec, Prog.ask, serve, Port.load, Port.store, h, Port.answer]

theorem exec_mailboxHandler :
    (exec (serve .rpu1 true) mailboxHandler p).2.clear pmuMask = p.answer pmu pmuMask := by
  simp [mailboxHandler, op, exec, Prog.ask, serve, Port.store, pmuMask_eq, Port.answer]

theorem exec_pollSources_cons (status : U32) (l : List Source) (tmp : U32) :
    exec (serve .rpu0 true) (pollSources status ((i :: l).map Source.mask) tmp) p =
      if status.getLsbD i = true then
        exec (serve .rpu0 true) (pollSources status (l.map Source.mask) (p.request i))
          (p.answer i i.mask)
      else exec (serve .rpu0 true) (pollSources status (l.map Source.mask) tmp) p := by
  rw [List.map_cons, pollSources, exec_ite]
  simp only [and_mask_ne_zero]
  split
  · simp [op, exec, Prog.ask, serve, Port.store, Port.answer]
  · rfl

theorem pollSources_echoing (status : U32) (l : List Source) (tmp : U32) :
    Echoing p (exec (serve .rpu0 true) (pollSources status (l.map Source.mask) tmp) p).2 := by
  induction l generalizing p tmp with
  | nil => exact Echoing.refl p
  | cons i l ih =>
    rw [exec_pollSources_cons]
    split
    · refine (answer_echoing i.mask ?_).trans (ih (p.request i))
      rw [mask_getLsbD, decide_eq_true_eq]
      exact Eq.symm
    · exact ih tmp

theorem pollSources_clears (status : U32) (l : List Source) (tmp : U32)
    (hSeen : status.getLsbD pmu = true) (hMem : pmu ∈ l ∨ p.pending pmu = false) :
    (exec (serve .rpu0 true) (pollSources status (l.map Source.mask) tmp) p).2.pending pmu =
      false := by
  induction l generalizing p tmp with
  | nil => exact hMem.resolve_left List.not_mem_nil
  | cons i l ih =>
    rw [exec_pollSources_cons]
    split
    case isTrue =>
      apply ih
      rw [pending_answer, mask_getLsbD]
      rcases hMem with hMem | hClear
      · rcases List.mem_cons.mp hMem with rfl | hMem
        · simp
        · exact .inl hMem
      · exact .inr (by rw [hClear, Bool.false_and])
    case isFalse hUnseen =>
      apply ih
      apply hMem.imp_left
      intro hMem
      refine (List.mem_cons.mp hMem).resolve_left ?_
      rintro rfl
      exact hUnseen hSeen

theorem handled_rpu1 : handled targets .rpu1 p = (p.note .enter).answer pmu pmuMask :=
  exec_mailboxHandler

theorem handled_of_addresses {ch : Channel} {a : Addresses} (h : ch.addresses = some a) :
    handled targets ch p = (p.note .enter).answer pmu (~~~0) := by
  have hNe : ch ≠ .rpu1 := by
    rintro rfl
    cases h
  rw [handled, if_neg hNe, handler_of_addresses targets h, exec_echoHandler h]

/-- Each handler echoes the request of the PMU before it acknowledges it. -/
theorem handled_echoing (ch : Channel) : Echoing p (handled targets ch p) := by
  have hAnswer : ∀ mask, Echoing p ((p.note .enter).answer pmu mask) := fun mask =>
    enter_echoing.trans (answer_echoing mask fun _ => rfl)
  cases ch with
  | rpu0 => exact enter_echoing.trans (pollSources_echoing _ _ _)
  | rpu1 =>
    rw [handled_rpu1]
    exact hAnswer pmuMask
  | mb0 | mb1 | apu =>
    rw [handled_of_addresses rfl]
    exact hAnswer (~~~0)

theorem handled_clears (hMem : pmu ∈ targets) (ch : Channel) (hPending : p.pending pmu = true) :
    (handled targets ch p).pending pmu = false := by
  cases ch with
  | rpu0 => exact pollSources_clears p.isr targets 0 hPending (.inl hMem)
  | rpu1 =>
    rw [handled_rpu1, pending_answer, pmuMask_eq, mask_getLsbD]
    simp
  | mb0 | mb1 | apu =>
    rw [handled_of_addresses rfl, pending_answer, allOnes_getLsbD]
    simp

/-! ### What the PMU sees of the others -/

theorem Remote.echoing (h : Remote targets ports ports') (ch : Channel) :
    Echoing (ports ch) (ports' ch) := by
  have hUpdate : ∀ {ch' : Channel} {p : Port}, Echoing (ports ch') p →
      Echoing (ports ch) (Function.update ports ch' p ch) := by
    intro ch' p hEcho
    rcases eq_or_ne ch ch' with rfl | hOther
    · rwa [Function.update_self]
    · rw [Function.update_of_ne hOther]
      exact Echoing.refl _
  cases h with
  | handles ch' h => exact hUpdate (handled_echoing ch')
  | @sends ch' i value h =>
    apply hUpdate
    apply other_echoing (.sent i value) rfl
    · exact decide_eq_false h
    · exact Function.update_of_ne h.symm value (ports ch').request
    · rfl
    · rfl
  | @triggers ch' i h =>
    apply hUpdate
    apply other_echoing (.trigger i) rfl
    · rfl
    · rfl
    · rfl
    · simp [h.symm]

theorem Meanwhile.echoing (h : Meanwhile targets ports ports') (ch : Channel) :
    Echoing (ports ch) (ports' ch) := by
  induction h with
  | refl => exact Echoing.refl _
  | tail _ hStep ih => exact ih.trans (hStep.echoing ch)

end Ports

section Round

variable {targets : List Source} {ports ports' : Channel → Port} {cnt : U32} {ch : Channel}
  {done : List Channel} {init : Channel → U32}

/-- Every run of a program ends well, with the others going on beside it. -/
abbrev Ends {α : Type} (targets : List Source) (post : α → (Channel → Port) → Prop) (p : Pmu α)
    (ports : Channel → Port) : Prop :=
  Always (Meanwhile targets) (Prompt targets) (fun _ _ => True) post p ports

theorem ends_op {α : Type} {post : α → (Channel → Port) → Prop} {e : PmuOp}
    {rest : PmuAnswer e → Pmu α}
    (h : ∀ waited, Meanwhile targets ports waited →
      (∀ ch timeOut, e = .ipiPollForAck ch timeOut → (waited ch).pending pmu = false) →
      Ends targets post (rest (pmuServe true e waited).1) (pmuServe true e waited).2) :
    Ends targets post (pmuOp e >>= rest) ports := by
  apply Always.ask_bind
  intro ports₁ hMove₁
  refine ⟨trivial, ?_⟩
  rintro answer ports₂ ⟨waited, hMove₂, hAcked, rfl, rfl⟩
  exact h waited (hMove₁.trans hMove₂) hAcked

/-- Nothing that the PMU has left in a log is lost. -/
def Kept (ports ports' : Channel → Port) : Prop :=
  ∀ ch (event : Event), event.ofPmu = true → event ∈ (ports ch).log → event ∈ (ports' ch).log

theorem Kept.trans {ports'' : Channel → Port} (h : Kept ports ports') (h' : Kept ports' ports'') :
    Kept ports ports'' :=
  fun ch event hOf hMem => h' ch event hOf (h ch event hOf hMem)

theorem Meanwhile.kept (h : Meanwhile targets ports ports') : Kept ports ports' :=
  fun ch _ hOf hMem => ((Meanwhile.echoing h ch).mem_log hOf).mpr hMem

theorem kept_update {p : Port} (h : ∀ event ∈ (ports ch).log, event ∈ p.log) :
    Kept ports (Function.update ports ch p) := by
  intro ch' event _ hMem
  rcases eq_or_ne ch' ch with rfl | hOther
  · rw [Function.update_self]
    exact h event hMem
  · rwa [Function.update_of_ne hOther]

def ReachedIn (cnt : U32) (done : List Channel) (ports : Channel → Port) : Prop :=
  ∀ ch ∈ done, .sent pmu cnt ∈ (ports ch).log ∧ .received cnt ∈ (ports ch).log

theorem ReachedIn.kept (h : ReachedIn cnt done ports) (hKept : Kept ports ports') :
    ReachedIn cnt done ports' := by
  intro ch hMem
  obtain ⟨hSent, hReceived⟩ := h ch hMem
  exact ⟨hKept ch _ (by simp [Event.ofPmu]) hSent, hKept ch _ rfl hReceived⟩

/-- The number of the round survives the check while it fits into 16 bits. -/
theorem accepted_of_small (h : cnt.toNat < 2 ^ 16) : cnt &&& 0xFFFF = cnt := by
  apply BitVec.eq_of_toNat_eq
  rw [BitVec.toNat_and]
  exact (Nat.and_two_pow_sub_one_eq_mod cnt.toNat 16).trans (Nat.mod_eq_of_lt h)

theorem rejected_of_large (h : 2 ^ 16 ≤ cnt.toNat) (resp : U32) : resp &&& 0xFFFF ≠ cnt := by
  rintro rfl
  rw [BitVec.toNat_and] at h
  have hMod : resp.toNat &&& (2 ^ 16 - 1) = resp.toNat % 2 ^ 16 :=
    Nat.and_two_pow_sub_one_eq_mod resp.toNat 16
  have hLt := Nat.mod_lt resp.toNat (Nat.two_pow_pos 16)
  exact absurd (hMod ▸ h) (Nat.not_le_of_lt hLt)

/-- Where the loop stands at a channel, between two calls: its request is there, and what has not
been answered with it is pending. -/
structure Sent (cnt : U32) (ch : Channel) (ports : Channel → Port) : Prop where
  request : (ports ch).request pmu = cnt
  sent : .sent pmu cnt ∈ (ports ch).log

theorem Sent.moved (h : Sent cnt ch ports) (hMove : Meanwhile targets ports ports') :
    Sent cnt ch ports' where
  request := (Meanwhile.echoing hMove ch).request.trans h.request
  sent := Meanwhile.kept hMove ch _ (by simp [Event.ofPmu]) h.sent

theorem Sent.of_send (cnt : U32) (ch : Channel) (ports : Channel → Port) :
    Sent cnt ch (Function.update ports ch ((ports ch).send pmu cnt)) := by
  constructor
  · rw [Function.update_self]
    exact Function.update_self pmu cnt (ports ch).request
  · rw [Function.update_self]
    exact List.mem_cons_self

theorem Sent.trigger (h : Sent cnt ch ports) :
    Sent cnt ch (Function.update ports ch ((ports ch).trigger pmu)) := by
  constructor
  · rw [Function.update_self]
    exact h.request
  · rw [Function.update_self]
    exact List.mem_cons_of_mem _ h.sent

/-- Once the poll has seen the acknowledgement, the response is the message. -/
theorem Sent.echoed (h : Sent cnt ch ports)
    (hMove : Meanwhile targets (Function.update ports ch ((ports ch).trigger pmu)) ports')
    (hAcked : (ports' ch).pending pmu = false) : (ports' ch).response pmu = cnt := by
  have hEcho := Meanwhile.echoing hMove ch
  rw [Function.update_self] at hEcho
  have hPending : ((ports ch).trigger pmu).pending pmu = true := by simp
  exact (hEcho.echoed hPending hAcked).trans (hEcho.request.trans h.request)

/-- The line printed for an accepted response. -/
theorem ReachedIn.accept (h : ReachedIn cnt done ports) (hSent : Sent cnt ch ports) :
    ReachedIn cnt (done ++ [ch])
      (Function.update ports ch ((ports ch).note (.received cnt))) := by
  have hKept : Kept ports (Function.update ports ch ((ports ch).note (.received cnt))) :=
    kept_update fun _ => List.mem_cons_of_mem _
  intro ch' hMem
  rcases List.mem_append.mp hMem with hMem | hMem
  · exact h.kept hKept ch' hMem
  · obtain rfl := List.mem_singleton.mp hMem
    rw [Function.update_self]
    exact ⟨List.mem_cons_of_mem _ hSent.sent, List.mem_cons_self⟩

theorem sendTo_reaches (hSmall : cnt.toNat < 2 ^ 16) (hDone : ReachedIn cnt done ports) :
    Ends targets (fun going ports' => going = true ∧ ReachedIn cnt (done ++ [ch]) ports')
      (sendTo cnt ch) ports := by
  apply ends_op
  intro w₀ hMove₀ _
  apply ends_op
  intro w₁ hMove₁ _
  have hSent₁ : Sent cnt ch (pmuServe true (.ipiWriteMessage ch cnt) w₁).2 := .of_send cnt ch w₁
  have hDone₁ : ReachedIn cnt done (pmuServe true (.ipiWriteMessage ch cnt) w₁).2 :=
    (hDone.kept (.trans (Meanwhile.kept hMove₀) (Meanwhile.kept hMove₁))).kept
      (kept_update fun _ => List.mem_cons_of_mem _)
  apply ends_op
  intro w₂ hMove₂ _
  have hSent₂ := hSent₁.moved hMove₂
  have hDone₂ : ReachedIn cnt done (pmuServe true (.ipiTrigger ch) w₂).2 :=
    (hDone₁.kept (Meanwhile.kept hMove₂)).kept (kept_update fun _ => List.mem_cons_of_mem _)
  apply ends_op
  intro w₃ hMove₃ hAcked
  have hClear := hAcked ch 100 rfl
  have hEchoed := hSent₂.echoed hMove₃ hClear
  have hSent₃ := hSent₂.trigger.moved hMove₃
  have hPoll : pmuServe true (.ipiPollForAck ch 100) w₃ = (.success, w₃) := if_pos ⟨rfl, hClear⟩
  rw [hPoll]
  apply ends_op
  intro w₄ hMove₄ _
  have hSent₄ := hSent₃.moved hMove₄
  have hResponse : (w₄ ch).response pmu = cnt :=
    ((Meanwhile.echoing hMove₄ ch).kept (hEchoed.trans hSent₃.request.symm)).trans hSent₄.request
  have hRead : (pmuServe true (.ipiReadResponse ch) w₄).1 = (.success, cnt) := by
    rw [← hResponse]
    rfl
  simp only [hRead, accepted_of_small hSmall, ne_eq, not_true_eq_false, if_false]
  apply ends_op
  intro w₅ hMove₅ _
  have hSent₅ : Sent cnt ch w₅ := Sent.moved ⟨by simp [pmuServe, Port.note, hSent₄.request], by
    simp [pmuServe, Port.note, hSent₄.sent]⟩ hMove₅
  have hDone₅ : ReachedIn cnt done w₅ := by
    apply ReachedIn.kept _ (Meanwhile.kept hMove₅)
    apply ReachedIn.kept _ (kept_update fun _ => List.mem_cons_of_mem _)
    exact (hDone₂.kept (Meanwhile.kept hMove₃)).kept (Meanwhile.kept hMove₄)
  intro ports' hMove
  exact ⟨rfl, (hDone₅.accept hSent₅).kept (Meanwhile.kept hMove)⟩

theorem sendAll_reaches (hSmall : cnt.toNat < 2 ^ 16) (l : List Channel)
    (hDone : ReachedIn cnt done ports) :
    Ends targets (fun _ ports' => ReachedIn cnt (done ++ l) ports') (sendAll cnt l) ports := by
  induction l generalizing done ports with
  | nil =>
    intro ports' hMove
    rw [List.append_nil]
    exact hDone.kept (Meanwhile.kept hMove)
  | cons ch l ih =>
    apply Always.bind fun _ => ReflTransGen.refl
    apply (sendTo_reaches hSmall hDone).mono fun _ _ => id
    rintro going ports' ⟨rfl, hDone'⟩
    rw [List.append_cons]
    exact ih hDone'

theorem sendIpi_reaches (hInit : ∀ ch, init ch ≠ 0) (hSmall : cnt.toNat < 2 ^ 16) :
    Ends targets (AllReached cnt) (sendIpi init cnt) ports := by
  have hStarted : ¬ ∃ ch ∈ channels, init ch = 0 := fun ⟨ch, _, hZero⟩ => hInit ch hZero
  rw [sendIpi, if_neg hStarted]
  apply Always.bind fun _ => ReflTransGen.refl
  have hNone : ReachedIn cnt [] ports := fun _ hMem => absurd hMem List.not_mem_nil
  apply (sendAll_reaches hSmall channels hNone).mono fun _ _ => id
  intro _ ports₁ hReached ports' hMove
  have hAll := hReached.kept (Meanwhile.kept hMove)
  have hMem : ∀ ch : Channel, ch ∈ channels := by
    intro ch
    cases ch <;> decide
  exact ⟨rfl, fun ch => (hAll ch (hMem ch)).1, fun ch => (hAll ch (hMem ch)).2⟩

/-! ### A counter of more than 16 bits -/

theorem sendTo_rejects (hLarge : 2 ^ 16 ≤ cnt.toNat) (ch : Channel) :
    Only (fun e => ∀ ch', e ≠ .printf (.receivedMessage cnt ch')) (sendTo cnt ch) := by
  refine ⟨by simp, fun _ => ⟨by simp, fun _ => ?_⟩⟩
  refine only_ite (fun _ => ⟨by simp, fun _ => trivial⟩) fun _ => ⟨by simp, fun _ => ?_⟩
  refine only_ite (fun _ => ⟨by simp, fun _ => trivial⟩) fun _ => ⟨by simp, fun _ => ?_⟩
  refine only_ite (fun _ => ⟨by simp, fun _ => trivial⟩) fun _ => ⟨by simp, ?_⟩
  rintro ⟨status, resp⟩
  refine only_ite (fun _ => ⟨by simp, fun _ => trivial⟩) fun _ => ?_
  exact only_ite (fun _ => ⟨by simp, fun _ => trivial⟩) fun hEqual =>
    absurd (rejected_of_large hLarge resp) hEqual

theorem sendAll_rejects (hLarge : 2 ^ 16 ≤ cnt.toNat) (l : List Channel) :
    Only (fun e => ∀ ch', e ≠ .printf (.receivedMessage cnt ch')) (sendAll cnt l) := by
  induction l with
  | nil => trivial
  | cons ch l ih =>
    apply (sendTo_rejects hLarge ch).bind
    intro going
    exact only_ite (fun _ => ih) fun _ => trivial

theorem sendIpi_rejects (hLarge : 2 ^ 16 ≤ cnt.toNat) :
    Only (fun e => ∀ ch', e ≠ .printf (.receivedMessage cnt ch')) (sendIpi init cnt) := by
  apply only_ite
  · exact fun _ => trivial
  · exact fun _ => (sendAll_rejects hLarge channels).bind fun _ => trivial

theorem received_of_pmuServe {e : PmuOp} {ok : Bool}
    (hOther : ∀ ch', e ≠ .printf (.receivedMessage cnt ch'))
    (h : .received cnt ∈ ((pmuServe ok e ports).2 ch).log) :
    .received cnt ∈ (ports ch).log := by
  refine (pmuServe_log h).resolve_right fun hLeaves => ?_
  cases e with
  | printf line =>
    obtain ⟨cnt', rfl, hEvent⟩ := hLeaves
    cases hEvent
    exact hOther ch rfl
  | ipiReadResponse ch' =>
    obtain ⟨-, value, hEvent⟩ := hLeaves
    cases hEvent
  | ipiPollForAck ch' timeOut => exact hLeaves
  | ipiWriteMessage _ _ | ipiTrigger _ => cases hLeaves.2

theorem sendIpi_misses (hLarge : 2 ^ 16 ≤ cnt.toNat)
    (hStart : ∀ ch, .received cnt ∉ (ports ch).log) :
    Ends targets (fun _ ports' => ∀ ch, .received cnt ∉ (ports' ch).log) (sendIpi init cnt)
      ports := by
  have hRely : ∀ w w', (∀ ch, .received cnt ∉ (w ch).log) → Meanwhile targets w w' →
      ∀ ch, .received cnt ∉ (w' ch).log := by
    intro w w' hNone hMove ch hMem
    exact hNone ch (((Meanwhile.echoing hMove ch).mem_log rfl).mp hMem)
  apply Always.of_invariant hRely _ (fun _ _ _ _ => trivial) (sendIpi_rejects hLarge) hStart
  rintro e w answer w' hOther hNone ⟨waited, hMove, -, rfl, rfl⟩ ch hMem
  exact hRely w waited hNone hMove ch (received_of_pmuServe hOther hMem)

/-! ### Surroundings in which each poll finds the handler done -/

def promptly (targets : List Source) (e : PmuOp) (ports : Channel → Port) :
    PmuAnswer e × (Channel → Port) :=
  match e with
  | .ipiPollForAck ch timeOut =>
    pmuServe true (.ipiPollForAck ch timeOut)
      (if (ports ch).pending pmu then Function.update ports ch (handled targets ch (ports ch))
      else ports)
  | e => pmuServe true e ports

theorem enabled_of_pending {p : Port} (h : p.pending pmu = true) : p.isr &&& allMask ≠ 0 := by
  intro hZero
  have hBit : (p.isr &&& allMask).getLsbD pmu = true := by
    rw [BitVec.getLsbD_and, Bool.and_eq_true]
    exact ⟨h, by decide⟩
  rw [hZero] at hBit
  simp at hBit

theorem promptly_prompt (hTargets : pmu ∈ targets) (e : PmuOp) (ports : Channel → Port) :
    Prompt targets e ports (promptly targets e ports).1 (promptly targets e ports).2 := by
  cases e with
  | ipiPollForAck ch timeOut =>
    simp only [promptly]
    split
    case isTrue hPending =>
      have hStep : Remote targets ports _ := .handles ports ch (enabled_of_pending hPending)
      refine ⟨_, .single hStep, ?_, rfl, rfl⟩
      rintro ch' timeOut' ⟨⟩
      rw [Function.update_self]
      exact handled_clears hTargets ch hPending
    case isFalse hClear =>
      refine ⟨ports, .refl, ?_, rfl, rfl⟩
      rintro ch' timeOut' ⟨⟩
      exact eq_false_of_ne_true hClear
  | ipiWriteMessage _ _ | ipiTrigger _ | ipiReadResponse _ | printf _ =>
    exact ⟨ports, .refl, by simp, rfl, rfl⟩

/-- A round reaches every CPU, in every run in which all calls succeed and all CPUs acknowledge in
time, exactly while its number fits into 16 bits. -/
theorem everyRound_iff (hTargets : pmu ∈ targets) (hInit : ∀ ch, init ch ≠ 0)
    (hLog : ∀ ch, (ports ch).log = []) :
    Ends targets (AllReached cnt) (sendIpi init cnt) ports ↔ cnt.toNat < 2 ^ 16 := by
  constructor
  · intro hReached
    by_contra hLarge
    have hStart : ∀ ch, .received cnt ∉ (ports ch).log := by
      intro ch
      simp [hLog]
    have hMisses : Ends targets _ (sendIpi init cnt) ports :=
      sendIpi_misses (Nat.le_of_not_lt hLarge) hStart
    have hRefl : ∀ ports, Meanwhile targets ports ports := fun _ => .refl
    exact hMisses.exec hRefl (promptly_prompt hTargets) .rpu0
      ((hReached.exec hRefl (promptly_prompt hTargets)).accepted .rpu0)
  · exact sendIpi_reaches hInit

theorem everyRound_iff_six :
    Ends [8, pmu] (AllReached 6) (sendIpi (fun _ => 1) 6) (fun _ => newPort) :=
  (everyRound_iff (by decide) (fun _ => by decide) (fun _ => rfl)).mpr (by decide)

/-- The round 65536 ends at RPU 0, which has echoed the number. -/
theorem everyRound_failure :
    ¬ Ends [8, pmu] (AllReached 0x10000) (sendIpi (fun _ => 1) 0x10000) (fun _ => newPort) := by
  intro hReached
  have hEnd := hReached.exec (fun _ => .refl) (promptly_prompt (by decide))
  exact absurd (hEnd.sent .rpu1) (by decide)

end Round

end SoftwarePrototypes.IpiMessaging
