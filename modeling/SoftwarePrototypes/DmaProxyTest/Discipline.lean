import SoftwarePrototypes.DmaProxyTest.Threads
import SoftwarePrototypes.Interaction.Rings

/-! # The discipline of one thread

What a thread sees of its channel and of the shared variables, and what it relies on while the
others move. Under that, both threads start and finish the buffers of their ring in order, and
never have more transfers in progress than the ring has slots.
-/

namespace SoftwarePrototypes.DmaProxyTest

open Interaction Interaction.Prog
open SoftwarePrototypes.DmaProxy (ProxyStatus)

/-! ## What a thread sees -/

/-- The buffers started and finished on a channel, in order. `passedOver` tells that the thread
has once decided not to start a buffer of its ring; the application keeps no such record. -/
structure Ledger where
  starts : List Nat
  finishes : List Nat
  passedOver : Bool

def Ledger.started (L : Ledger) (bufferId : Nat) : Ledger :=
  { L with starts := L.starts ++ [bufferId] }

def Ledger.finished (L : Ledger) (bufferId : Nat) : Ledger :=
  { L with finishes := L.finishes ++ [bufferId] }

/-- A count that has reached `num_transfers` passes a buffer over before a restart, and in the
first loop when the ring has more slots. -/
def Ledger.tested (L : Ledger) (slots : Nat) (test : Test) (count : Int) (reached : Bool) :
    Ledger :=
  let passes := match test with
    | .fill => decide (count < slots)
    | .done => false
    | .refill => true
  { L with passedOver := L.passedOver || (reached && passes) }

def Ledger.outstanding (L : Ledger) : List Nat := L.starts.drop L.finishes.length

/-- `word` shows the first word of each buffer of the channel. -/
structure View where
  ledger : Ledger
  numTransfers : Int
  stop : Bool
  word : Nat → BitVec 32

/-- The first loops run once even when fewer transfers are asked for. -/
def View.target (v : View) : Nat := max v.numTransfers.toNat 1

/-- What is fixed for one thread: its ring, the number of receive buffers, the transfers asked
for, and what its channel does for it. `calm` means that no stop is requested, and `stops` that
the thread answers one; `sends` that the words sent are to be the numbers of the transfers, and
`receives` that they arrive so. -/
structure Setting where
  ring : Ring
  rxBufferCount : Nat
  asked : Int
  calm : Prop
  stops : Prop
  sends : Prop
  receives : Prop

/-- Others may rewrite `num_transfers` only to a count that this thread, not having passed over a
buffer and not done yet, can still reach with all slots in progress. -/
structure Moved (t : Setting) (v v' : View) : Prop where
  ledger : v'.ledger = v.ledger
  target : v'.numTransfers = v.numTransfers ∨ (v.ledger.passedOver = false ∧
    v.ledger.finishes.length < v.target ∧ v.ledger.finishes.length + t.ring.slots ≤ v'.target)
  word : ∀ b ∉ v.ledger.outstanding, v'.word b = v.word b
  calm : t.calm → v'.stop = v.stop ∧ v'.numTransfers = v.numTransfers

/-- What one call of a thread does. A transfer that finishes may leave anything in the buffers
unless the setting says what arrives. -/
def does (t : Setting) : Sem Op Answer View := fun e v answer v' =>
  match e with
  | .setLength _ _ | .printTransferError | .printNotEqual _ _ _ => v' = v
  | .writeWord b i value =>
    v' = { v with word := if i = 0 then Function.update v.word b value else v.word }
  | .startXfer b _ => v' = { v with ledger := v.ledger.started b }
  | .finishXfer b _ => answer = .noError ∧ v'.ledger = v.ledger.finished b ∧
      v'.numTransfers = v.numTransfers ∧ v'.stop = v.stop ∧
      (t.receives → v'.word b = BitVec.ofNat 32 v.ledger.finishes.length)
  | .reachedNumTransfers test count => answer = decide (v.numTransfers ≤ count) ∧
      v' = { v with ledger := v.ledger.tested t.ring.slots test count answer }
  | .readStop => answer = v.stop ∧ v' = v
  | .writeNumTransfers value => v' = { v with numTransfers := value } ∧
      v.ledger.passedOver = false ∧ v.ledger.finishes.length + t.ring.slots ≤ v'.target
  | .readWord b i => (i = 0 → answer = v.word b) ∧ v' = v

/-! ## Where a thread stands -/

/-- `s` transfers have been started and `f` finished, each on the slot of its number. -/
structure Matches (r : Ring) (s f : Nat) (L : Ledger) : Prop where
  starts : L.starts = (List.range s).map r.slot
  finishes : L.finishes = (List.range f).map r.slot

structure Filling (t : Setting) (k s : Nat) (v : View) : Prop
    extends Matches t.ring s 0 v.ledger where
  started : s = k ∨ s = k + 1
  within : k < t.ring.slots
  asked : k = 0 ∨ k < v.target
  unpassed : v.ledger.passedOver = false
  calm : t.calm → v.stop = false ∧ v.numTransfers = t.asked

/-- In round `k` of the second loop: all slots are in progress, or all transfers are started. -/
structure Working (t : Setting) (k s f : Nat) (v : View) : Prop
    extends Matches t.ring s f v.ledger where
  started : s = min (k + t.ring.slots) v.target
  asked : k < v.target
  finished : f = k ∨ f = k + 1
  unpassed : v.ledger.passedOver = false → s = k + t.ring.slots
  passed : v.ledger.passedOver = true → s = v.target ∧ 1 < t.ring.slots
  calm : t.calm → v.stop = false ∧ v.numTransfers = t.asked

structure Settled (t : Setting) (v : View) : Prop
    extends Matches t.ring v.target v.target v.ledger where
  calm : t.calm → v.numTransfers = t.asked

/-- What holds of a call with `s` transfers started and `f` finished. -/
def Fits (t : Setting) (s f : Nat) (v : View) : Op → Prop
  | .writeWord b _ _ => b = t.ring.slot s ∧ s < f + t.ring.slots
  | .startXfer b inProgressCount => b = t.ring.slot s ∧ s < f + t.ring.slots ∧
      inProgressCount = s - f ∧ (t.sends → v.word b = BitVec.ofNat 32 s)
  | .finishXfer b inProgressCount => b = t.ring.slot f ∧ f < s ∧ inProgressCount = s - f
  | .writeNumTransfers value => ¬ t.calm ∧ t.stops ∧ value = int32 (f + t.rxBufferCount) ∧
      s < f + t.ring.slots ∧ f < v.target ∧ (v.ledger.passedOver = true → 1 < t.ring.slots)
  | .reachedNumTransfers test count => count = match test with
    | .fill => (s : Int) - f
    | .done => f
    | .refill => s
  | .readWord b i => i = 0 ∧ 0 < f ∧ (t.receives → v.word b = BitVec.ofNat 32 (f - 1))
  | .printNotEqual _ _ _ => ¬ t.receives
  | _ => True

def Safe (t : Setting) (e : Op) (v : View) : Prop :=
  ∃ s f, Matches t.ring s f v.ledger ∧ f ≤ s ∧ s ≤ f + t.ring.slots ∧ Fits t s f v e

inductive Stage where
  | fill (k : Nat)
  | loop (k : Nat)
  | left

def Stands (t : Setting) : Stage → Next → View → Prop
  | .fill k, next, v => next = .fill (t.ring.slot k) k ∧ Filling t k k v
  | .loop k, next, v => ∃ (s : Nat) (stopInProgress : Bool),
      next = .loop ⟨t.ring.slot k, (s : Int) - k, k, stopInProgress⟩ ∧ Working t k s k v
  | .left, next, v => next = .returned 0 ∧ Settled t v

def Stage.Leads : Stage → Stage → Prop
  | .fill k, .fill k' => k' = k + 1
  | .fill _, .loop k' => k' = 0
  | .loop k, .loop k' => k' = k + 1
  | .loop _, .left => True
  | _, _ => False

abbrev Holds {α : Type} (t : Setting) (post : α → View → Prop) (p : Thread α) (v : View) : Prop :=
  Always (Moved t) (does t) (Safe t) post p v

/-! ## What the others leave alone -/

section Steps

variable {t : Setting} {v v' : View} {k s f : Nat}

theorem Moved.refl (t : Setting) (v : View) : Moved t v v :=
  ⟨rfl, .inl rfl, fun _ _ => rfl, fun _ => ⟨rfl, rfl⟩⟩

theorem target_eq (h : v'.numTransfers = v.numTransfers) : v'.target = v.target := by
  rw [View.target, h, View.target]

theorem Moved.trans {v'' : View} (h : Moved t v v') (h' : Moved t v' v'') : Moved t v v'' := by
  have hLedger := h.ledger
  constructor
  · exact h'.ledger.trans hLedger
  · have hNext := h'.target
    rw [hLedger] at hNext
    rcases hNext with hSame' | ⟨hUnpassed, _, hReach⟩
    · rw [hSame', target_eq hSame']
      exact h.target
    · rcases h.target with hSame | ⟨_, hEarly, _⟩
      · rw [target_eq hSame] at *
        exact .inr ⟨hUnpassed, by assumption, hReach⟩
      · exact .inr ⟨hUnpassed, hEarly, hReach⟩
  · intro b hFree
    rw [h'.word b (hLedger ▸ hFree), h.word b hFree]
  · intro hCalm
    rw [(h'.calm hCalm).1, (h'.calm hCalm).2]
    exact h.calm hCalm

theorem Matches.finishes_length {r : Ring} {L : Ledger} (h : Matches r s f L) :
    L.finishes.length = f := by
  rw [h.finishes, List.length_map, List.length_range]

theorem Matches.starts_length {r : Ring} {L : Ledger} (h : Matches r s f L) :
    L.starts.length = s := by
  rw [h.starts, List.length_map, List.length_range]

theorem Matches.outstanding_eq {r : Ring} {L : Ledger} (h : Matches r s f L) :
    L.outstanding = (List.range' f (s - f)).map r.slot := by
  rw [Ledger.outstanding, h.finishes_length, h.starts, ← List.map_drop, List.range_eq_range',
    List.drop_range']
  simp

theorem Matches.mem_outstanding {r : Ring} {L : Ledger} (h : Matches r s f L) {b : Nat} :
    b ∈ L.outstanding ↔ ∃ j, f ≤ j ∧ j < s ∧ b = r.slot j := by
  rw [h.outstanding_eq, List.mem_map]
  constructor
  · rintro ⟨j, hj, rfl⟩
    rw [List.mem_range'_1] at hj
    exact ⟨j, by omega, by omega, rfl⟩
  · rintro ⟨j, hLow, hHigh, rfl⟩
    refine ⟨j, ?_, rfl⟩
    rw [List.mem_range'_1]
    omega

theorem Matches.outstanding_length {r : Ring} {L : Ledger} (h : Matches r s f L) :
    L.outstanding.length = s - f := by
  rw [h.outstanding_eq, List.length_map, List.length_range']

theorem Matches.outstanding_nodup {r : Ring} {L : Ledger} (h : Matches r s f L)
    (hRoom : s ≤ f + r.slots) : L.outstanding.Nodup := by
  rw [h.outstanding_eq]
  apply List.Nodup.map_on _ List.nodup_range'
  intro i hi j hj hSame
  rw [List.mem_range'_1] at hi hj
  rcases Nat.lt_trichotomy i j with hLt | hEq | hGt
  · exact absurd hSame (r.slot_ne hLt (by omega))
  · exact hEq
  · exact absurd hSame.symm (r.slot_ne hGt (by omega))

theorem Matches.finishes_prefix {r : Ring} {L : Ledger} (h : Matches r s f L) (hLe : f ≤ s) :
    L.finishes <+: L.starts := by
  have hTake : L.finishes = L.starts.take f := by
    rw [h.finishes, h.starts, ← List.map_take, List.take_range, Nat.min_eq_left hLe]
  rw [hTake]
  exact List.take_prefix f L.starts

theorem Matches.next_free {r : Ring} {L : Ledger} (h : Matches r s f L) (hRoom : s < f + r.slots) :
    r.slot s ∉ L.outstanding := by
  intro hMem
  obtain ⟨j, hLow, hHigh, hSame⟩ := h.mem_outstanding.mp hMem
  exact r.slot_ne hHigh (by omega) hSame.symm

theorem Matches.last_free {r : Ring} {L : Ledger} (h : Matches r s (f + 1) L)
    (hRoom : s ≤ f + r.slots) : r.slot f ∉ L.outstanding := by
  intro hMem
  obtain ⟨j, hLow, hHigh, hSame⟩ := h.mem_outstanding.mp hMem
  exact r.slot_ne (by omega) (by omega) hSame

theorem Matches.started {r : Ring} {L : Ledger} (h : Matches r s f L) :
    Matches r (s + 1) f (L.started (r.slot s)) where
  starts := by rw [Ledger.started, h.starts, List.range_succ, List.map_append]; rfl
  finishes := h.finishes

theorem Matches.finished {r : Ring} {L : Ledger} (h : Matches r s f L) :
    Matches r s (f + 1) (L.finished (r.slot f)) where
  starts := h.starts
  finishes := by rw [Ledger.finished, h.finishes, List.range_succ, List.map_append]; rfl

theorem Filling.moved (h : Filling t k s v) (hMove : Moved t v v') : Filling t k s v' := by
  have hWithin := h.within
  refine ⟨hMove.ledger ▸ h.toMatches, h.started, h.within, ?_, hMove.ledger ▸ h.unpassed, ?_⟩
  · rcases hMove.target with hSame | ⟨_, _, hNew⟩
    · rw [target_eq hSame]
      exact h.asked
    · right
      omega
  · intro hCalm
    rw [(hMove.calm hCalm).1, (hMove.calm hCalm).2]
    exact h.calm hCalm

theorem Working.moved (h : Working t k s f v) (hMove : Moved t v v') : Working t k s f v' := by
  have hSlots := t.ring.slots_pos
  have hFinished := h.finished
  have hLength := h.finishes_length
  constructor
  · exact hMove.ledger ▸ h.toMatches
  · rcases hMove.target with hSame | ⟨hUnpassed, _, hNew⟩
    · rw [target_eq hSame]
      exact h.started
    · have := h.unpassed hUnpassed
      omega
  · rcases hMove.target with hSame | ⟨_, _, hNew⟩
    · rw [target_eq hSame]
      exact h.asked
    · omega
  · exact h.finished
  · rw [hMove.ledger]
    exact h.unpassed
  · intro hPassed
    rw [hMove.ledger] at hPassed
    rcases hMove.target with hSame | ⟨hUnpassed, _, _⟩
    · rw [target_eq hSame]
      exact h.passed hPassed
    · rw [hPassed] at hUnpassed
      cases hUnpassed
  · intro hCalm
    rw [(hMove.calm hCalm).1, (hMove.calm hCalm).2]
    exact h.calm hCalm

theorem Settled.moved (h : Settled t v) (hMove : Moved t v v') : Settled t v' := by
  have hLength := h.finishes_length
  refine ⟨?_, ?_⟩
  · rcases hMove.target with hSame | ⟨_, hEarly, _⟩
    · rw [target_eq hSame, hMove.ledger]
      exact h.toMatches
    · omega
  · intro hCalm
    rw [(hMove.calm hCalm).2]
    exact h.calm hCalm

/-! ## What one call makes of where the thread stands -/

@[simp] theorem tested_unreached (L : Ledger) (slots : Nat) (test : Test) (count : Int) :
    L.tested slots test count false = L := by
  cases L
  simp [Ledger.tested]

@[simp] theorem tested_done (L : Ledger) (slots : Nat) (count : Int) (reached : Bool) :
    L.tested slots .done count reached = L := by
  cases L
  simp [Ledger.tested]

theorem Filling.start (h : Filling t k k v) :
    Filling t k (k + 1) { v with ledger := v.ledger.started (t.ring.slot k) } where
  toMatches := h.toMatches.started
  started := .inr rfl
  within := h.within
  asked := h.asked
  unpassed := h.unpassed
  calm := h.calm

theorem Filling.stored (h : Filling t k s v) (word : Nat → BitVec 32) :
    Filling t k s { v with word := word } :=
  ⟨h.toMatches, h.started, h.within, h.asked, h.unpassed, h.calm⟩

theorem Working.stored (h : Working t k s f v) (word : Nat → BitVec 32) :
    Working t k s f { v with word := word } :=
  ⟨h.toMatches, h.started, h.asked, h.finished, h.unpassed, h.passed, h.calm⟩

theorem Filling.full (h : Filling t k (k + 1) v) (hFull : v.numTransfers ≤ k + 1) :
    Working t 0 (k + 1) 0
      { v with ledger := v.ledger.tested t.ring.slots .fill (k + 1) true } := by
  have hWithin := h.within
  have hAsked := h.asked
  have hTarget : v.target = k + 1 := by
    unfold View.target at *
    omega
  refine ⟨⟨h.starts, h.finishes⟩, ?_, ?_, .inl rfl, ?_, ?_, h.calm⟩
  · change k + 1 = min (0 + t.ring.slots) v.target
    omega
  · change 0 < v.target
    omega
  · intro hUnpassed
    simp [Ledger.tested, h.unpassed] at hUnpassed
    omega
  · intro hPassed
    simp [Ledger.tested, h.unpassed] at hPassed
    exact ⟨hTarget.symm, by omega⟩

theorem Filling.next (h : Filling t k (k + 1) v) (hRoom : ¬ v.numTransfers ≤ k + 1)
    (hInner : k + 1 < t.ring.slots) : Filling t (k + 1) (k + 1) v where
  toMatches := h.toMatches
  started := .inl rfl
  within := hInner
  asked := .inr (by unfold View.target; omega)
  unpassed := h.unpassed
  calm := h.calm

theorem Filling.last (h : Filling t k (k + 1) v) (hRoom : ¬ v.numTransfers ≤ k + 1)
    (hLast : ¬ k + 1 < t.ring.slots) : Working t 0 (k + 1) 0 v where
  toMatches := h.toMatches
  started := by
    have hWithin := h.within
    unfold View.target
    omega
  asked := by unfold View.target; omega
  finished := .inl rfl
  unpassed := fun _ => by have hWithin := h.within; omega
  passed := fun hPassed => by rw [h.unpassed] at hPassed; cases hPassed
  calm := h.calm

theorem Working.finish (h : Working t k s k v)
    (hLedger : v'.ledger = v.ledger.finished (t.ring.slot k))
    (hNum : v'.numTransfers = v.numTransfers) (hStop : v'.stop = v.stop) :
    Working t k s (k + 1) v' where
  toMatches := hLedger ▸ h.toMatches.finished
  started := target_eq hNum ▸ h.started
  asked := target_eq hNum ▸ h.asked
  finished := .inr rfl
  unpassed := by rw [hLedger]; exact h.unpassed
  passed := by rw [hLedger, target_eq hNum]; exact h.passed
  calm := by rw [hStop, hNum]; exact h.calm

theorem Working.over (h : Working t k s (k + 1) v) (hDone : v.numTransfers ≤ k + 1) :
    s = v.target ∧ k + 1 = v.target := by
  have hStarted := h.started
  have hAsked := h.asked
  have hSlots := t.ring.slots_pos
  unfold View.target at *
  omega

theorem Working.more (hRoom : ¬ v.numTransfers ≤ k + 1) : k + 1 < v.target := by
  unfold View.target
  omega

theorem Working.passOver (h : Working t k s (k + 1) v) (hMore : k + 1 < v.target)
    (hFull : v.numTransfers ≤ s) : Working t (k + 1) s (k + 1)
      { v with ledger := v.ledger.tested t.ring.slots .refill s true } := by
  have hStarted := h.started
  have hTarget : s = v.target := by
    unfold View.target at *
    omega
  refine ⟨⟨h.starts, h.finishes⟩, ?_, hMore, .inl rfl, ?_, ?_, h.calm⟩
  · change s = min (k + 1 + t.ring.slots) v.target
    omega
  · intro hUnpassed
    simp [Ledger.tested] at hUnpassed
  · intro _
    exact ⟨hTarget, by omega⟩

theorem Working.refill (h : Working t k s (k + 1) v) (hRoom : ¬ v.numTransfers ≤ s) :
    s = k + t.ring.slots ∧ s < v.target := by
  have hStarted := h.started
  unfold View.target at *
  omega

theorem Working.restart (h : Working t k s (k + 1) v) (hFull : s = k + t.ring.slots)
    (hMore : s < v.target) : Working t (k + 1) (s + 1) (k + 1)
      { v with ledger := v.ledger.started (t.ring.slot s) } := by
  have hSlots := t.ring.slots_pos
  refine ⟨h.toMatches.started, ?_, ?_, .inl rfl, ?_, ?_, h.calm⟩
  · change s + 1 = min (k + 1 + t.ring.slots) v.target
    omega
  · change k + 1 < v.target
    omega
  · intro _
    omega
  · intro hPassed
    have := (h.passed hPassed).1
    omega

end Steps

end SoftwarePrototypes.DmaProxyTest
