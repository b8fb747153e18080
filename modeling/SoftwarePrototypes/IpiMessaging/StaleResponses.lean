import Mathlib.Algebra.Group.Nat.Defs
import SoftwarePrototypes.Interaction.Threads
import SoftwarePrototypes.IpiMessaging.Pmu

/-! # No stale response is accepted

The PMU and all handlers, step by step. After a time-out the PMU goes on while a handler may still
be anywhere in its run. An accepted response is nevertheless the one to the message of the round:
it carries a number that no earlier message has.
-/

namespace SoftwarePrototypes.IpiMessaging

open Interaction Interaction.Prog Interaction.Runs Interaction.Threads

inductive Thread where
  | pmu
  | handler (ch : Channel)
  deriving DecidableEq

abbrev Call : Thread → Type
  | .pmu => PmuOp
  | .handler _ => Op

abbrev CallAnswer : (i : Thread) → Call i → Type
  | .pmu => PmuAnswer
  | .handler _ => Answer

/-- The PMU ends a round with the next value of the counter. -/
abbrev Result : Thread → Type
  | .pmu => U32
  | .handler _ => Unit

/-- `rounds` counts the calls of `XPfw_SendIpi`. -/
structure Exchange where
  init : Channel → U32
  rounds : Nat
  ports : Channel → Port

def Exchange.setPort (s : Exchange) (ch : Channel) (p : Port) : Exchange :=
  { s with ports := Function.update s.ports ch p }

/-- A poll times out when it does not proceed well. -/
inductive Move where
  | proceed (ok : Bool)
  | ipi (srcMask : U32)
  | send (ch : Channel) (i : Source) (value : U32)
  | trigger (ch : Channel) (i : Source)
  | acknowledge

/-- A handler may be entered at any time, for it serves other sources too. -/
def exchange (m : RpuMasks) (targets : List Source) : System CallAnswer Result Move Exchange where
  perform
    | .pmu, e, .proceed ok, s =>
      some ((pmuServe ok e s.ports).1, { s with ports := (pmuServe ok e s.ports).2 })
    | .handler ch, e, .proceed ok, s =>
      some ((serve ch ok e (s.ports ch)).1, s.setPort ch (serve ch ok e (s.ports ch)).2)
    | _, _, _, _ => none
  again
    | .pmu, cnt, _, s => some (sendIpi s.init cnt, { s with rounds := s.rounds + 1 })
    | .handler ch, (), _, s =>
      some (handler targets ch, s.setPort ch ((s.ports ch).note .enter))
  surroundings
    | .proceed _, _ => none
    | .ipi srcMask, s => some { s with init := ipiHandler m srcMask s.init }
    | .send ch i value, s =>
      if i = pmu then none else some (s.setPort ch ((s.ports ch).send i value))
    | .trigger ch i, s =>
      if i = pmu then none else some (s.setPort ch ((s.ports ch).trigger i))
    | .acknowledge, s => some (s.setPort .rpu1 ((s.ports .rpu1).clear pmuMask))

def started (init : Channel → U32) (ports : Channel → Port) :
    Config CallAnswer Result Exchange where
  shared := { init, rounds := 0, ports }
  code
    | .pmu => .ret 0
    | .handler _ => .ret ()

/-- The latest event first: the PMU writes the value, the handler reads it and writes it as its
response, the PMU reads that. -/
def exchanged (value : U32) : List Event :=
  [.taken pmu value, .respond pmu value, .read pmu value, .sent pmu value]

/-- What the PMU reports as received in the first 2^32 rounds has gone all the way. -/
def ReportsGenuine (ch : Channel) : (i : Thread) → Call i → Exchange → Prop
  | .pmu, e, s => ∀ value, e = .printf (.receivedMessage value ch) → s.rounds < 2 ^ 32 →
      value ≠ 0 → (exchanged value).Sublist (s.ports ch).log
  | .handler _, _, _ => True

/-! ### Where the values come from -/

/-- Nothing but 0 is in the buffers that was not sent, and nothing is in the response that the
handler did not read. -/
structure Sourced (p : Port) : Prop where
  request : p.request pmu = 0 ∨ [Event.sent pmu (p.request pmu)].Sublist p.log
  response : p.response pmu = 0 ∨ [Event.respond pmu (p.response pmu),
    .read pmu (p.response pmu), .sent pmu (p.response pmu)].Sublist p.log

structure Extends (p p' : Port) : Prop where
  log : p.log.Sublist p'.log
  sourced : Sourced p → Sourced p'

/-- What the PMU relies on at a channel: only it sends as the PMU. -/
structure Heard (p p' : Port) : Prop extends Extends p p' where
  sent : ∀ value, .sent pmu value ∈ p'.log → .sent pmu value ∈ p.log

section Port

variable {p p' p'' : Port} {i : Source} {value : U32}

theorem Extends.refl (p : Port) : Extends p p := ⟨.refl _, id⟩

theorem Extends.trans (h : Extends p p') (h' : Extends p' p'') : Extends p p'' :=
  ⟨h.log.trans h'.log, fun hSourced => h'.sourced (h.sourced hSourced)⟩

theorem Heard.refl (p : Port) : Heard p p := ⟨.refl p, fun _ => id⟩

theorem Heard.trans (h : Heard p p') (h' : Heard p' p'') : Heard p p'' :=
  ⟨h.toExtends.trans h'.toExtends, fun value hMem => h.sent value (h'.sent value hMem)⟩

theorem extends_of_log (event : Event) (hLog : p'.log = event :: p.log)
    (hRequest : p'.request pmu = p.request pmu) (hResponse : p'.response pmu = p.response pmu) :
    Extends p p' where
  log := hLog ▸ List.sublist_cons_self event p.log
  sourced hSourced := by
    constructor
    · rw [hRequest, hLog]
      exact hSourced.request.imp_right (·.cons event)
    · rw [hResponse, hLog]
      exact hSourced.response.imp_right (·.cons event)

theorem heard_of_log (event : Event) (hLog : p'.log = event :: p.log)
    (hEvent : ∀ value, event ≠ .sent pmu value) (hRequest : p'.request pmu = p.request pmu)
    (hResponse : p'.response pmu = p.response pmu) : Heard p p' where
  toExtends := extends_of_log event hLog hRequest hResponse
  sent value hMem := by
    rw [hLog] at hMem
    exact List.mem_of_ne_of_mem (hEvent value).symm hMem

theorem extends_send : Extends p (p.send pmu value) where
  log := List.sublist_cons_self _ _
  sourced hSourced := by
    constructor
    · right
      rw [request_send]
      exact (List.nil_sublist _).cons_cons _
    · exact hSourced.response.imp_right (·.cons _)

/-- A handler may write what it has read. -/
theorem heard_respond (h : value = 0 ∨ [Event.read pmu value, .sent pmu value].Sublist p.log) :
    Heard p (p.respond pmu value) where
  log := List.sublist_cons_self _ _
  sourced hSourced := by
    constructor
    · exact hSourced.request.imp_right (·.cons _)
    · rw [response_respond]
      exact h.imp_right (·.cons_cons _)
  sent _ := List.mem_of_ne_of_mem (by simp)

end Port

/-! ### The outline -/

section Outline

variable {ch : Channel} {a : Addresses} {m : RpuMasks} {targets : List Source} {s s' : Exchange}
  {cnt : U32}

/-- What the Microblaze handler calls, and that it responds with what it has read. -/
def HandlerCall (a : Addresses) (p : Port) : Op → Prop
  | .read32 _ => True
  | .write32 addr value => addr = a.isr ∨
      addr = a.resBuff ∧ (value = 0 ∨ [Event.read pmu value, .sent pmu value].Sublist p.log)
  | _ => False

/-- Between two rounds no number has been sent beyond the counter, which the count of the rounds
bounds. -/
structure Counted (ch : Channel) (cnt : U32) (s : Exchange) : Prop where
  sourced : Sourced (s.ports ch)
  bound : s.rounds < 2 ^ 32 → cnt.toNat ≤ s.rounds ∧
    ∀ value, .sent pmu value ∈ (s.ports ch).log → value.toNat ≤ cnt.toNat

def genuine (ch : Channel) (a : Addresses) : Outline CallAnswer Result Exchange where
  rely
    | .pmu, s, s' => s'.rounds = s.rounds ∧ Heard (s.ports ch) (s'.ports ch)
    | .handler ch', s, s' => ch' = ch → Extends (s.ports ch) (s'.ports ch)
  guard _ _ _ := True
  safe
    | .pmu, e, s => ReportsGenuine ch .pmu e s
    | .handler ch', e, s => ch' = ch → HandlerCall a (s.ports ch) e
  post
    | .pmu, cnt, s => Counted ch cnt s
    | .handler ch', _, s => ch' = ch → Sourced (s.ports ch)

theorem ports_setPort (ch' : Channel) (p : Port) :
    (s.setPort ch' p).ports ch = if ch = ch' then p else s.ports ch := by
  simp [Exchange.setPort, Function.update_apply]

theorem setPort_self (p : Port) : (s.setPort ch p).ports ch = p := by
  rw [ports_setPort, if_pos rfl]

theorem heard_setPort {ch' : Channel} {p : Port} (h : ch' = ch → Heard (s.ports ch) p) :
    Heard (s.ports ch) ((s.setPort ch' p).ports ch) := by
  rw [ports_setPort]
  split
  · exact h (Eq.symm ‹_›)
  · exact Heard.refl _

/-- A step by anyone but the PMU and the handler of the channel is no more than heard of. -/
theorem rely_of_heard (hRounds : s'.rounds = s.rounds)
    (hHeard : Heard (s.ports ch) (s'.ports ch)) (i : Thread) : (genuine ch a).rely i s s' := by
  cases i with
  | pmu => exact ⟨hRounds, hHeard⟩
  | handler ch' => exact fun _ => hHeard.toExtends

theorem rely_setPort {ch' : Channel} {p : Port} (h : ch' = ch → Heard (s.ports ch) p)
    (i : Thread) : (genuine ch a).rely i s (s.setPort ch' p) := by
  apply rely_of_heard
  · rfl
  · exact heard_setPort h

theorem heard_load (register : Option Register) (p : Port) : Heard p (p.load register).2 := by
  unfold Port.load
  split
  case h_2 i => exact heard_of_log _ rfl (by simp) rfl rfl
  all_goals exact Heard.refl p

theorem handler_heard (h : ch.addresses = some a) {ok : Bool} {e : Op} {p : Port}
    (hCall : HandlerCall a p e) : Heard p (serve ch ok e p).2 := by
  cases e with
  | read32 addr => exact heard_load _ p
  | write32 addr value =>
    rcases hCall with rfl | ⟨rfl, hRead⟩
    · simp only [serve, decode_isr h]
      exact heard_of_log (.clear value) rfl (by simp) rfl rfl
    · simp only [serve, decode_resBuff h]
      exact heard_respond hRead
  | _ => exact hCall.elim

theorem extends_update {ports : Channel → Port} {ch' : Channel} {p : Port}
    (h : Extends (ports ch') p) : Extends (ports ch) (Function.update ports ch' p ch) := by
  rcases eq_or_ne ch ch' with rfl | hOther
  · rwa [Function.update_self]
  · rw [Function.update_of_ne hOther]
    exact Extends.refl _

theorem pmu_extends (e : PmuOp) (ok : Bool) (ports : Channel → Port) :
    Extends (ports ch) ((pmuServe ok e ports).2 ch) := by
  cases e with
  | ipiWriteMessage ch' value =>
    cases ok with
    | false => exact Extends.refl _
    | true => exact extends_update extends_send
  | ipiTrigger ch' =>
    cases ok with
    | false => exact Extends.refl _
    | true => exact extends_update (extends_of_log (.trigger pmu) rfl rfl rfl)
  | ipiPollForAck ch' timeOut =>
    simp only [pmuServe]
    split
    · exact Extends.refl _
    · exact Extends.refl _
  | ipiReadResponse ch' =>
    cases ok with
    | false => exact Extends.refl _
    | true => exact extends_update (extends_of_log (.taken pmu _) rfl rfl rfl)
  | printf line =>
    cases line with
    | receivedMessage cnt ch' => exact extends_update (extends_of_log (.received cnt) rfl rfl rfl)
    | _ => exact Extends.refl _

/-- Only the message of the round is sent. -/
theorem pmu_sent {e : PmuOp} (hMessage : ∀ ch' value, e = .ipiWriteMessage ch' value → value = cnt)
    (ok : Bool) (ports : Channel → Port) {value : U32}
    (hMem : .sent pmu value ∈ ((pmuServe ok e ports).2 ch).log) :
    value = cnt ∨ .sent pmu value ∈ (ports ch).log := by
  refine (pmuServe_log hMem).symm.imp_left fun hLeaves => ?_
  cases e with
  | ipiWriteMessage ch' value' =>
    cases hLeaves.2
    exact hMessage ch' value rfl
  | ipiTrigger ch' => cases hLeaves.2
  | ipiPollForAck ch' timeOut => exact hLeaves.elim
  | ipiReadResponse ch' =>
    obtain ⟨-, value', hEvent⟩ := hLeaves
    cases hEvent
  | printf line =>
    obtain ⟨cnt', -, hEvent⟩ := hLeaves
    cases hEvent

/-- The state within a round. -/
structure InRound (ch : Channel) (cnt : U32) (s : Exchange) : Prop where
  sourced : Sourced (s.ports ch)
  bound : s.rounds < 2 ^ 32 → cnt.toNat < s.rounds ∧
    ∀ value, .sent pmu value ∈ (s.ports ch).log → value.toNat ≤ cnt.toNat

theorem InRound.moved (h : InRound ch cnt s) (hMove : (genuine ch a).rely .pmu s s') :
    InRound ch cnt s' := by
  obtain ⟨hRounds, hHeard⟩ := hMove
  constructor
  · exact hHeard.sourced h.sourced
  · rw [hRounds]
    intro hFew
    obtain ⟨hLt, hSent⟩ := h.bound hFew
    exact ⟨hLt, fun value hMem => hSent value (hHeard.sent value hMem)⟩

theorem InRound.served (h : InRound ch cnt s) {e : PmuOp}
    (hMessage : ∀ ch' value, e = .ipiWriteMessage ch' value → value = cnt) (ok : Bool) :
    InRound ch cnt { s with ports := (pmuServe ok e s.ports).2 } := by
  constructor
  · exact (pmu_extends e ok s.ports).sourced h.sourced
  · intro hFew
    obtain ⟨hLt, hSent⟩ := h.bound hFew
    refine ⟨hLt, fun value hMem => ?_⟩
    rcases pmu_sent hMessage ok s.ports hMem with rfl | hMem
    · exact le_rfl
    · exact hSent value hMem

/-- Part of a round of the PMU, whose state stays that of a round. -/
abbrev Sends {α : Type} (m : RpuMasks) (targets : List Source) (ch : Channel) (a : Addresses)
    (cnt : U32) (p : Pmu α) (s : Exchange) : Prop :=
  Always ((genuine ch a).rely .pmu) ((genuine ch a).sem (exchange m targets) .pmu)
    ((genuine ch a).safe .pmu) (fun _ s' => InRound ch cnt s') p s

theorem sends_ret {α : Type} (h : InRound ch cnt s) (value : α) :
    Sends m targets ch a cnt (.ret value) s :=
  fun _ hMove => h.moved hMove

theorem sends_op {α : Type} {e : PmuOp} {rest : PmuAnswer e → Pmu α} (h : InRound ch cnt s)
    (hMessage : ∀ ch' value, e = .ipiWriteMessage ch' value → value = cnt)
    (hSafe : ∀ s', (genuine ch a).rely .pmu s s' → InRound ch cnt s' →
      (genuine ch a).safe .pmu e s')
    (hNext : ∀ s', (genuine ch a).rely .pmu s s' → ∀ ok,
      InRound ch cnt { s' with ports := (pmuServe ok e s'.ports).2 } →
      Sends m targets ch a cnt (rest (pmuServe ok e s'.ports).1)
        { s' with ports := (pmuServe ok e s'.ports).2 }) :
    Sends m targets ch a cnt (pmuOp e >>= rest) s := by
  apply Always.ask_bind
  intro s' hMove
  refine ⟨hSafe s' hMove (h.moved hMove), ?_⟩
  rintro answer s'' ⟨-, choice, hPerform⟩
  cases choice with
  | proceed ok =>
    obtain ⟨rfl, rfl⟩ := Prod.mk.inj (Option.some.inj hPerform)
    exact hNext s' hMove ok ((h.moved hMove).served hMessage ok)
  | _ => cases hPerform

/-- The rule for every call but the report of a message. -/
theorem sends_quiet {α : Type} {e : PmuOp} {rest : PmuAnswer e → Pmu α} (h : InRound ch cnt s)
    (hMessage : ∀ ch' value, e = .ipiWriteMessage ch' value → value = cnt)
    (hQuiet : ∀ value ch', e ≠ .printf (.receivedMessage value ch'))
    (hNext : ∀ answer s', InRound ch cnt s' → Sends m targets ch a cnt (rest answer) s') :
    Sends m targets ch a cnt (pmuOp e >>= rest) s :=
  sends_op h hMessage (fun _ _ _ value hReport => absurd hReport (hQuiet value ch))
    fun _ _ _ => hNext _ _

theorem sends_fail {line : Line} (h : InRound ch cnt s)
    (hQuiet : ∀ value ch', line ≠ .receivedMessage value ch') :
    Sends m targets ch a cnt (pmuOp (.printf line) >>= fun _ => pure false) s :=
  sends_quiet h (by simp) (by simpa using hQuiet) fun _ _ hNext => sends_ret hNext false

/-- A response that passes the check and does not exceed the counter equals it. -/
theorem eq_of_masked {resp : U32} (hMasked : resp &&& 0xFFFF = cnt)
    (hLe : resp.toNat ≤ cnt.toNat) : resp = cnt := by
  apply BitVec.eq_of_toNat_eq
  apply le_antisymm hLe
  rw [← hMasked, BitVec.toNat_and]
  exact Nat.and_le_left

/-- What the PMU reads as the response of the channel has come from the handler. -/
theorem exchanged_of_read {ports : Channel → Port} (hSourced : Sourced (ports ch)) :
    (ports ch).response pmu = 0 ∨ (exchanged ((ports ch).response pmu)).Sublist
      ((pmuServe true (.ipiReadResponse ch) ports).2 ch).log := by
  have hLog : ((pmuServe true (.ipiReadResponse ch) ports).2 ch).log =
      .taken pmu ((ports ch).response pmu) :: (ports ch).log := by
    simp [pmuServe, Port.note]
  rw [hLog]
  exact hSourced.response.imp_right (·.cons_cons _)

/-- The report of a round that has found the response to pass the check. -/
theorem report_genuine {ch' : Channel} {resp : U32} (h : InRound ch cnt s)
    (hRead : ch' = ch → resp = 0 ∨ (exchanged resp).Sublist (s.ports ch).log)
    (hMasked : resp &&& 0xFFFF = cnt) :
    ReportsGenuine ch .pmu (.printf (.receivedMessage cnt ch')) s := by
  rintro value ⟨⟩ hFew hPositive
  rcases hRead rfl with rfl | hChain
  · exact absurd (hMasked.symm.trans (by simp)) hPositive
  have hSent : .sent pmu resp ∈ (s.ports ch).log := hChain.subset (by simp [exchanged])
  obtain rfl := eq_of_masked hMasked ((h.bound hFew).2 resp hSent)
  exact hChain

theorem sendTo_sends (ch' : Channel) (h : InRound ch cnt s) :
    Sends m targets ch a cnt (sendTo cnt ch') s := by
  apply sends_quiet h (by simp) (by simp)
  intro _ s₁ h₁
  apply sends_quiet h₁ (by simp) (by simp)
  intro status s₂ h₂
  split
  · exact sends_fail h₂ (by simp)
  apply sends_quiet h₂ (by simp) (by simp)
  intro status s₃ h₃
  split
  · exact sends_fail h₃ (by simp)
  apply sends_quiet h₃ (by simp) (by simp)
  intro status s₄ h₄
  split
  · exact sends_fail h₄ (by simp)
  apply sends_op h₄ (by simp) (fun _ _ _ value hReport => by cases hReport)
  intro s₅ hMove₅ ok h₅
  cases ok with
  | false => exact sends_fail h₅ (by simp)
  | true =>
    have hRead : ch' = ch → (s₅.ports ch').response pmu = 0 ∨
        (exchanged ((s₅.ports ch').response pmu)).Sublist
          ((pmuServe true (.ipiReadResponse ch') s₅.ports).2 ch).log := by
      rintro rfl
      exact exchanged_of_read (h₄.moved hMove₅).sourced
    change Sends m targets ch a cnt
      (if (s₅.ports ch').response pmu &&& 0xFFFF ≠ cnt then _ else _) _
    split
    case isTrue => exact sends_fail h₅ (by simp)
    case isFalse hMasked =>
      apply sends_op h₅ (by simp)
      · intro s₆ hMove₆ h₆
        apply report_genuine h₆ _ (not_not.mp hMasked)
        exact fun hEq => (hRead hEq).imp_right (·.trans hMove₆.2.log)
      · exact fun _ _ _ hNext => sends_ret hNext true

theorem sendAll_sends (l : List Channel) (h : InRound ch cnt s) :
    Sends m targets ch a cnt (sendAll cnt l) s := by
  induction l generalizing s with
  | nil => exact sends_ret h ()
  | cons ch' l ih =>
    apply Always.bind fun s => ⟨rfl, Heard.refl (s.ports ch)⟩
    apply (sendTo_sends ch' h).mono fun _ _ => id
    intro going s' h'
    split
    · exact ih h'
    · exact sends_ret h' ()

theorem InRound.counted (h : InRound ch cnt s) : Counted ch cnt s :=
  ⟨h.sourced, fun hFew => ⟨(h.bound hFew).1.le, (h.bound hFew).2⟩⟩

theorem InRound.next (h : InRound ch cnt s) : Counted ch (cnt + 1) s where
  sourced := h.sourced
  bound hFew := by
    obtain ⟨hLt, hSent⟩ := h.bound hFew
    have hNext : (cnt + 1).toNat = cnt.toNat + 1 := by
      rw [BitVec.toNat_add]
      exact Nat.mod_eq_of_lt (lt_of_le_of_lt hLt hFew)
    rw [hNext]
    exact ⟨hLt, fun value hMem => (hSent value hMem).trans (Nat.le_succ _)⟩

theorem Counted.moved (h : Counted ch cnt s) (hMove : (genuine ch a).rely .pmu s s') :
    Counted ch cnt s' := by
  obtain ⟨hRounds, hHeard⟩ := hMove
  constructor
  · exact hHeard.sourced h.sourced
  · rw [hRounds]
    intro hFew
    obtain ⟨hLe, hSent⟩ := h.bound hFew
    exact ⟨hLe, fun value hMem => hSent value (hHeard.sent value hMem)⟩

theorem Counted.round (h : Counted ch cnt s) :
    InRound ch cnt { s with rounds := s.rounds + 1 } where
  sourced := h.sourced
  bound hFew := by
    obtain ⟨hLe, hSent⟩ := h.bound ((Nat.lt_succ_self _).trans hFew)
    exact ⟨Nat.lt_succ_of_le hLe, hSent⟩

theorem sendIpi_follows (init : Channel → U32) (h : InRound ch cnt s) :
    (genuine ch a).Follows (exchange m targets) .pmu (sendIpi init cnt) s := by
  unfold sendIpi
  split
  · exact fun _ hMove => (h.moved hMove).counted
  · apply Always.bind fun s => ⟨rfl, Heard.refl (s.ports ch)⟩
    apply (sendAll_sends channels h).mono fun _ _ => id
    exact fun _ _ h' _ hMove => (h'.moved hMove).next

/-! ### The handlers -/

theorem handler_op {ch' : Channel} {e : Op} {rest : Answer e → Handler Unit}
    (h : ∀ s' : Exchange, (ch' = ch → Extends (s.ports ch) (s'.ports ch)) →
      (ch' = ch → HandlerCall a (s'.ports ch) e) ∧
      ∀ ok, (genuine ch a).Follows (exchange m targets) (.handler ch')
        (rest (serve ch' ok e (s'.ports ch')).1)
        (s'.setPort ch' (serve ch' ok e (s'.ports ch')).2)) :
    (genuine ch a).Follows (exchange m targets) (.handler ch') (op e >>= rest) s := by
  apply Always.ask_bind
  intro s' hMove
  refine ⟨(h s' hMove).1, ?_⟩
  rintro answer s'' ⟨-, choice, hPerform⟩
  cases choice with
  | proceed ok =>
    obtain ⟨rfl, rfl⟩ := Prod.mk.inj (Option.some.inj hPerform)
    exact (h s' hMove).2 ok
  | _ => cases hPerform

theorem echoHandler_follows (h : ch.addresses = some a) (hSourced : Sourced (s.ports ch)) :
    (genuine ch a).Follows (exchange m targets) (.handler ch) (echoHandler a) s := by
  apply handler_op
  intro s₁ hMove₁
  refine ⟨fun _ => trivial, fun ok => ?_⟩
  have hSourced₁ := (hMove₁ rfl).sourced hSourced
  rw [read_request h]
  have hRead : (s₁.ports ch).request pmu = 0 ∨ [Event.read pmu ((s₁.ports ch).request pmu),
      .sent pmu ((s₁.ports ch).request pmu)].Sublist
      ((s₁.ports ch).note (.read pmu ((s₁.ports ch).request pmu))).log :=
    hSourced₁.request.imp_right (·.cons_cons _)
  have hNoted : Extends (s₁.ports ch)
      ((s₁.ports ch).note (.read pmu ((s₁.ports ch).request pmu))) :=
    extends_of_log _ rfl rfl rfl
  apply handler_op
  intro s₂ hMove₂
  rw [setPort_self] at hMove₂
  have hStill := hRead.imp_right (·.trans (hMove₂ rfl).log)
  have hSourced₂ := (hMove₂ rfl).sourced (hNoted.sourced hSourced₁)
  refine ⟨fun _ => .inr ⟨rfl, hStill⟩, fun ok => ?_⟩
  rw [write_response h]
  apply handler_op
  intro s₃ hMove₃
  rw [setPort_self] at hMove₃
  have hSourced₃ := (hMove₃ rfl).sourced ((heard_respond hStill).sourced hSourced₂)
  refine ⟨fun _ => .inl rfl, fun ok s₄ hMove₄ _ => ?_⟩
  have hExtends := hMove₄ rfl
  rw [setPort_self] at hExtends
  have hCall : HandlerCall a (s₃.ports ch) (.write32 a.isr (~~~0)) := .inl rfl
  exact hExtends.sourced ((handler_heard h hCall).sourced hSourced₃)

theorem handler_follows (h : ch.addresses = some a) (ch' : Channel)
    (hSourced : ch' = ch → Sourced (s.ports ch)) :
    (genuine ch a).Follows (exchange m targets) (.handler ch') (handler targets ch') s := by
  rcases eq_or_ne ch' ch with rfl | hOther
  · rw [handler_of_addresses targets h]
    exact echoHandler_follows h (hSourced rfl)
  · apply Always.of_forall
    · exact fun _ _ hEq => absurd hEq hOther
    · exact fun _ _ hEq => absurd hEq hOther

/-! ### No step breaks what another thread relies on -/

theorem call_relied (h : ch.addresses = some a) {i j : Thread} {e : Call i} {choice : Move}
    {answer : CallAnswer i e} {s' : Exchange} (hSafe : (genuine ch a).safe i e s)
    (hPerform : (exchange m targets).perform i e choice s = some (answer, s')) (hOther : j ≠ i) :
    (genuine ch a).rely j s s' := by
  cases i with
  | pmu =>
    cases choice with
    | proceed ok =>
      obtain ⟨rfl, rfl⟩ := Prod.mk.inj (Option.some.inj hPerform)
      cases j with
      | pmu => exact absurd rfl hOther
      | handler ch' => exact fun _ => pmu_extends e ok s.ports
    | _ => cases hPerform
  | handler ch' =>
    cases choice with
    | proceed ok =>
      obtain ⟨rfl, rfl⟩ := Prod.mk.inj (Option.some.inj hPerform)
      apply rely_setPort
      rintro rfl
      exact handler_heard h (hSafe rfl)
    | _ => cases hPerform

/-- A handler starts with the entry noted, the PMU with the next round. -/
theorem again_follows (h : ch.addresses = some a) {i : Thread} {value : Result i} {choice : Move}
    {code : Prog (Call i) (CallAnswer i) (Result i)} {s' : Exchange}
    (hPost : (genuine ch a).post i value s)
    (hAgain : (exchange m targets).again i value choice s = some (code, s')) :
    (genuine ch a).Follows (exchange m targets) i code s' ∧
      ∀ j, j ≠ i → (genuine ch a).rely j s s' := by
  cases i with
  | pmu =>
    obtain ⟨rfl, rfl⟩ := Prod.mk.inj (Option.some.inj hAgain)
    constructor
    · exact sendIpi_follows s.init (Counted.round hPost)
    · intro j hOther
      cases j with
      | pmu => exact absurd rfl hOther
      | handler ch' => exact fun _ => Extends.refl _
  | handler ch' =>
    obtain ⟨rfl, rfl⟩ := Prod.mk.inj (Option.some.inj hAgain)
    have hEnter : ch' = ch → Heard (s.ports ch) ((s.ports ch').note .enter) := by
      rintro rfl
      exact heard_of_log .enter rfl (by simp) rfl rfl
    constructor
    · exact handler_follows h ch' fun hEq => (heard_setPort hEnter).sourced (hPost hEq)
    · exact fun j _ => rely_setPort hEnter j

theorem surroundings_relied {choice : Move} {s' : Exchange}
    (hMoved : (exchange m targets).surroundings choice s = some s') (i : Thread) :
    (genuine ch a).rely i s s' := by
  cases choice with
  | proceed ok => cases hMoved
  | ipi srcMask =>
    cases hMoved
    apply rely_of_heard
    · rfl
    · exact Heard.refl _
  | send ch' i value =>
    simp only [exchange] at hMoved
    split at hMoved
    case isTrue => cases hMoved
    case isFalse hNe =>
      cases hMoved
      apply rely_setPort
      rintro rfl
      apply heard_of_log (.sent i value) rfl
      · simp [hNe]
      · exact Function.update_of_ne (Ne.symm hNe) value (s.ports ch').request
      · rfl
  | trigger ch' i =>
    simp only [exchange] at hMoved
    split at hMoved
    case isTrue => cases hMoved
    case isFalse hNe =>
      cases hMoved
      apply rely_setPort
      rintro rfl
      exact heard_of_log (.trigger i) rfl (by simp) rfl rfl
  | acknowledge =>
    cases hMoved
    apply rely_setPort
    rintro rfl
    exact heard_of_log (.clear pmuMask) rfl (by simp) rfl rfl

theorem genuine_sound (h : ch.addresses = some a) :
    (genuine ch a).Sound (exchange m targets) where
  refl i s := rely_of_heard rfl (Heard.refl _) i
  trans i s s' s'' hMove hMove' := by
    cases i with
    | pmu => exact ⟨hMove'.1.trans hMove.1, hMove.2.trans hMove'.2⟩
    | handler ch' => exact fun hEq => (hMove hEq).trans (hMove' hEq)
  call _ _ _ _ _ _ hSafe _ hPerform _ hOther := call_relied h hSafe hPerform hOther
  again _ _ _ _ _ _ hPost hAgain := again_follows h hPost hAgain
  surroundings _ _ _ hMoved := surroundings_relied hMoved

/-- Whatever the interleaving, what the PMU reports as received from a CPU with the echo handler
was sent in that round, read by the handler, and written by it as its response. -/
theorem reportsGenuine (h : ch.addresses = some a) (init : Channel → U32) (ports : Channel → Port)
    (hRequest : (ports ch).request pmu = 0) (hResponse : (ports ch).response pmu = 0)
    (hLog : (ports ch).log = []) (labels : List (Label Thread Move)) :
    Along (step (exchange m targets)) (AtCall (ReportsGenuine ch)) (started init ports) labels := by
  have hSourced : Sourced (ports ch) := ⟨.inl hRequest, .inl hResponse⟩
  have hCounted : Counted ch 0 (started init ports).shared :=
    ⟨hSourced, fun _ => ⟨Nat.zero_le _, by simp [started, hLog]⟩⟩
  have hStart : (genuine ch a).Holds (exchange m targets) (started init ports) := by
    intro i
    cases i with
    | pmu => exact fun _ hMove => hCounted.moved hMove
    | handler ch' => exact fun s' hMove hEq => (hMove hEq).sourced hSourced
  have hSafe : Along _ (AtCall (genuine ch a).safe) (started init ports) labels :=
    (genuine_sound h).always hStart fun _ _ _ => trivial
  refine hSafe.mono fun C label => AtCall.mono ?_
  intro i e s hSafe
  cases i with
  | pmu => exact hSafe
  | handler ch' => trivial

end Outline

/-! ### Two rounds without delay -/

def proceed (i : Thread) : Label Thread Move := .call i (.proceed true)

/-- The PMU sends to the channel, its handler runs, the PMU takes the response. -/
def service (ch : Channel) : List (Label Thread Move) :=
  List.replicate 3 (proceed .pmu) ++
  .again (.handler ch) (.proceed true) ::
  List.replicate (match ch with | .rpu0 => 4 | .rpu1 => 2 | _ => 3) (proceed (.handler ch)) ++
  (match ch with | .rpu1 => [.surroundings .acknowledge] | _ => []) ++
  List.replicate 3 (proceed .pmu)

def oneRound : List (Label Thread Move) :=
  .again .pmu (.proceed true) :: channels.flatMap service

theorem reportsGenuine_twice :
    ((run (step (exchange ⟨0x100, 0x200⟩ [pmu])) (started (fun _ => 1) fun _ => newPort)
      (oneRound ++ oneRound)).any fun C => .received 1 ∈ (C.shared.ports .mb0).log) = true ∧
    Along (step (exchange ⟨0x100, 0x200⟩ [pmu])) (AtCall (ReportsGenuine .mb0))
      (started (fun _ => 1) fun _ => newPort) (oneRound ++ oneRound) :=
  ⟨by decide, reportsGenuine rfl (fun _ => 1) (fun _ => newPort) rfl rfl rfl _⟩

end SoftwarePrototypes.IpiMessaging
