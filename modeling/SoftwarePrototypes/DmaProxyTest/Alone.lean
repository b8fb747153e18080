import SoftwarePrototypes.DmaProxyTest.Rounds

/-! # One thread at a time

When no stop is requested, `num_transfers` and `stop` stay as they are, so the ioctls of a thread
depend on its own channel alone. Every transfer finishes without error and leaves anything in the
buffers.
-/

namespace SoftwarePrototypes.DmaProxyTest

open Interaction Interaction.Prog

section Machine

variable (slots : Nat) (incoming : Ledger → Nat → BitVec 32)

def perform : (e : Op) → View → Answer e × View
  | .setLength _ _, v => ((), v)
  | .writeWord b i value, v =>
    ((), { v with word := if i = 0 then Function.update v.word b value else v.word })
  | .startXfer b _, v => ((), { v with ledger := v.ledger.started b })
  | .finishXfer b _, v =>
    (.noError, { v with ledger := v.ledger.finished b, word := incoming v.ledger })
  | .reachedNumTransfers test count, v => (decide (v.numTransfers ≤ count),
      { v with ledger := v.ledger.tested slots test count (decide (v.numTransfers ≤ count)) })
  | .readStop, v => (v.stop, v)
  | .writeNumTransfers value, v => ((), { v with numTransfers := value })
  | .readWord b i, v => (if i = 0 then v.word b else incoming v.ledger b, v)
  | .printTransferError, v => ((), v)
  | .printNotEqual _ _ _, v => ((), v)

/-- The thread and its channel after `n` calls, from an entry of its first loop with nothing
started and no stop requested. -/
def alone (body : Next → Thread Next) (bufferCount : Nat) (numTransfers : Int)
    (word : Nat → BitVec 32) (n : Nat) : Thread Next × View :=
  (advance (perform slots incoming) body)^[n]
    (body (afterFill bufferCount 0 0), ⟨⟨[], [], false⟩, numTransfers, false, word⟩)

end Machine

def Op.inProgressCount : Op → Option Int
  | .startXfer _ inProgressCount | .finishXfer _ inProgressCount => some inProgressCount
  | .reachedNumTransfers .fill count => some count
  | _ => none

/-- `k`-th finish on the buffer of the `k`-th start, one start outstanding per buffer, at most
`slots` in all, and `in_progress_count` their number. -/
structure Ordered (slots : Nat) (code : Thread Next) (L : Ledger) : Prop where
  finishes : L.finishes <+: L.starts
  distinct : L.outstanding.Nodup
  bounded : L.outstanding.length ≤ slots
  counted : ∀ count, code.head.bind Op.inProgressCount = some count →
    count = L.outstanding.length

structure Finished (numTransfers : Int) (code : Thread Next) (L : Ledger) : Prop where
  code : code = .ret (.returned 0)
  starts : (L.starts.length : Int) = max numTransfers 1
  finishes : (L.finishes.length : Int) = max numTransfers 1
  outstanding : L.outstanding = []

section Run

variable {t : Setting} {incoming : Ledger → Nat → BitVec 32}

theorem does_of_performs (hCalm : t.calm) (hReceives : ¬ t.receives) {e : Op} {v v' : View}
    {answer : Answer e} (hSafe : Safe t e v)
    (h : performs (perform t.ring.slots incoming) e v answer v') : does t e v answer v' := by
  obtain ⟨rfl, rfl⟩ := h
  cases e with
  | setLength b length => rfl
  | writeWord b i value => rfl
  | startXfer b count => rfl
  | finishXfer b count =>
    exact ⟨rfl, rfl, rfl, rfl, fun hReceiving => absurd hReceiving hReceives⟩
  | reachedNumTransfers test count => exact ⟨rfl, rfl⟩
  | readStop => exact ⟨rfl, rfl⟩
  | writeNumTransfers value =>
    obtain ⟨_, _, _, _, _, hAgitated, _⟩ := hSafe
    exact absurd hCalm hAgitated
  | readWord b i => exact ⟨fun hFirst => if_pos hFirst, rfl⟩
  | printTransferError => rfl
  | printNotEqual i data expected => rfl

theorem Stands.matches {stage : Stage} {next : Next} {v : View} (h : Stands t stage next v) :
    ∃ s f, Matches t.ring s f v.ledger ∧ f ≤ s ∧ s ≤ f + t.ring.slots := by
  cases stage with
  | fill k =>
    obtain ⟨_, h⟩ := h
    exact ⟨k, 0, h.toMatches, by omega, by have hWithin := h.within; omega⟩
  | loop k =>
    obtain ⟨s, _, _, h⟩ := h
    have hStarted := h.started
    have hAsked := h.asked
    have hSlots := t.ring.slots_pos
    exact ⟨s, k, h.toMatches, by omega, by omega⟩
  | left =>
    exact ⟨v.target, v.target, h.2.toMatches, by omega, by omega⟩

theorem Fits.counted {s f : Nat} {v : View} {e : Op} (h : Fits t s f v e) {count : Int}
    (hCount : e.inProgressCount = some count) : count = (s : Int) - f := by
  cases e with
  | startXfer b c =>
    cases hCount
    exact h.2.2.1
  | finishXfer b c =>
    cases hCount
    exact h.2.2
  | reachedNumTransfers test c =>
    cases test with
    | fill =>
      cases hCount
      exact h
    | done => cases hCount
    | refill => cases hCount
  | _ => cases hCount

theorem ordered_of_always {sem : Sem Op Answer View} {code : Thread Next} {v : View}
    (h : Always (Moved t) sem (Safe t) (Stationed t) code v) :
    Ordered t.ring.slots code v.ledger := by
  cases code with
  | ret next =>
    obtain ⟨stage, hStands⟩ := h v (Moved.refl t v)
    obtain ⟨s, f, hMatches, hLe, hRoom⟩ := hStands.matches
    refine ⟨hMatches.finishes_prefix hLe, hMatches.outstanding_nodup hRoom, ?_, ?_⟩
    · rw [hMatches.outstanding_length]
      omega
    · intro count hCount
      cases hCount
  | call e rest =>
    obtain ⟨s, f, hMatches, hLe, hRoom, hFits⟩ := h.safe_call (Moved.refl t)
    refine ⟨hMatches.finishes_prefix hLe, hMatches.outstanding_nodup hRoom, ?_, ?_⟩
    · rw [hMatches.outstanding_length]
      omega
    · intro count hCount
      rw [hMatches.outstanding_length, hFits.counted hCount]
      omega

def Stage.measure (t : Setting) : Stage → Nat
  | .fill k => max t.asked.toNat 1 + 1 + (t.ring.slots - k)
  | .loop k => max t.asked.toNat 1 - k
  | .left => 0

theorem Working.calm_asked {k s f : Nat} {v : View} (h : Working t k s f v) (hCalm : t.calm) :
    k < max t.asked.toNat 1 := by
  have hAsked := h.asked
  rw [View.target, (h.calm hCalm).2] at hAsked
  exact hAsked

def Measured (t : Setting) (m : Nat) (next : Next) (v : View) : Prop :=
  ∃ stage : Stage, Stands t stage next v ∧ stage.measure t = m

theorem Keeps.lowers {body : Next → Thread Next} (hKeeps : Keeps t body) (hCalm : t.calm) {m : Nat}
    {next : Next} {v : View} (h : Measured t (m + 1) next v) :
    Holds t (fun next' v' => ∃ m' ≤ m, Measured t m' next' v') (body next) v := by
  obtain ⟨stage, hStands, hMeasure⟩ := h
  cases stage with
  | fill k =>
    obtain ⟨rfl, h⟩ := hStands
    have hWithin := h.within
    simp only [Stage.measure] at hMeasure
    apply (hKeeps.fill k v h).mono (fun _ _ => id)
    rintro next v' ⟨stage', hStands', hLeads⟩
    refine ⟨stage'.measure t, ?_, stage', hStands', rfl⟩
    cases stage' with
    | fill k' =>
      cases hLeads
      simp only [Stage.measure]
      omega
    | loop k' =>
      cases hLeads
      simp only [Stage.measure]
      omega
    | left => cases hLeads
  | loop k =>
    obtain ⟨s, stopInProgress, rfl, h⟩ := hStands
    have hAsked := h.calm_asked hCalm
    simp only [Stage.measure] at hMeasure
    apply (hKeeps.loop k s stopInProgress v h).mono (fun _ _ => id)
    rintro next v' ⟨stage', hStands', hLeads⟩
    refine ⟨stage'.measure t, ?_, stage', hStands', rfl⟩
    cases stage' with
    | fill k' => cases hLeads
    | loop k' =>
      cases hLeads
      simp only [Stage.measure]
      omega
    | left => exact Nat.zero_le m
  | left => cases hMeasure

theorem Measured.left {next : Next} {v : View} (hCalm : t.calm) (h : Measured t 0 next v) :
    next = .returned 0 ∧ Settled t v := by
  obtain ⟨stage, hStands, hMeasure⟩ := h
  cases stage with
  | fill k =>
    simp only [Stage.measure] at hMeasure
    omega
  | loop k =>
    obtain ⟨_, _, _, h⟩ := hStands
    have hAsked := h.calm_asked hCalm
    simp only [Stage.measure] at hMeasure
    omega
  | left => exact hStands

theorem Settled.finished {v : View} {body : Next → Thread Next} (hCalm : t.calm)
    (hLeft : body (.returned 0) = .ret (.returned 0)) (h : Settled t v) :
    Finished t.asked (body (.returned 0)) v.ledger := by
  have hTarget : (v.target : Int) = max t.asked 1 := by
    rw [View.target, h.calm hCalm]
    omega
  refine ⟨hLeft, ?_, ?_, ?_⟩
  · rw [h.starts_length, hTarget]
  · rw [h.finishes_length, hTarget]
  · rw [← List.length_eq_zero_iff, h.outstanding_length]
    omega

end Run

/-- The ioctls of a thread, whatever arrives in its buffers. -/
def Disciplined (body : Next → Thread Next) (bufferCount increment : Nat) (numTransfers : Int) :
    Prop :=
  ∀ incoming word,
    let state := alone (bufferCount / increment) incoming body bufferCount numTransfers word
    (∀ n, Ordered (bufferCount / increment) (state n).1 (state n).2.ledger) ∧
      ∃ n, Finished numTransfers (state n).1 (state n).2.ledger

theorem disciplined_of_keeps {t : Setting} {body : Next → Thread Next} (hKeeps : Keeps t body)
    (hCall : ∀ next, settle body (body next) = body next) (hCalm : t.calm)
    (hReceives : ¬ t.receives) (hSlots : t.ring.slots = t.ring.size / t.ring.stride) :
    Disciplined body t.ring.size t.ring.stride t.asked := by
  intro incoming word
  rw [← hSlots]
  have hStart := stationed_start (t := t) (v := ⟨⟨[], [], false⟩, t.asked, false, word⟩) rfl
    (fun _ => ⟨rfl, rfl⟩)
  have hPerforms : ∀ {α : Type} {post : α → View → Prop} {p : Thread α} {v : View},
      Holds t post p v →
      Always (Moved t) (performs (perform t.ring.slots incoming)) (Safe t) post p v := by
    intro α post p v h
    apply h.restrict (fun _ _ => id)
    intro e v answer v' hSafe hDoes
    exact does_of_performs hCalm hReceives hSafe hDoes
  constructor
  · intro n
    have hAlways := always_advance (Moved.refl t) (fun _ _ h => hPerforms (hKeeps.round h))
      (hPerforms (hKeeps.round ⟨_, hStart⟩)) n
    exact ordered_of_always hAlways
  · obtain ⟨n, next, v, hRun, hLeft⟩ := advance_terminates (J := Measured t) (Moved.refl t)
      (fun _ _ _ h => hPerforms (hKeeps.lowers hCalm h)) hCall ⟨_, hStart, rfl⟩
    obtain ⟨rfl, hSettled⟩ := hLeft.left hCalm
    refine ⟨n, ?_⟩
    rw [alone, hRun]
    exact hSettled.finished hCalm hKeeps.left

/-- The pipeline discipline of both threads, for every number of transfers and every increment
that divides the buffer count. -/
theorem pipeline_disciplined (cfg : Config) (numTransfers : Int)
    (hIncrement : 0 < cfg.bufferIncrement) :
    (0 < cfg.txBufferCount → cfg.bufferIncrement ∣ cfg.txBufferCount →
      Disciplined (txThread cfg) cfg.txBufferCount cfg.bufferIncrement numTransfers) ∧
    (0 < cfg.rxBufferCount → cfg.bufferIncrement ∣ cfg.rxBufferCount →
      Disciplined (rxThread cfg) cfg.rxBufferCount cfg.bufferIncrement numTransfers) := by
  constructor
  · intro hCount hDvd
    let t : Setting := ⟨.ofDvd cfg.txBufferCount cfg.bufferIncrement hCount hIncrement hDvd,
      cfg.rxBufferCount, numTransfers, True, True, False, False⟩
    have hKeeps : Keeps t (txThread cfg) := txThread_keeps rfl rfl trivial rfl (fun h => h.elim)
    exact disciplined_of_keeps hKeeps (by rintro (_ | _ | _ | _) <;> rfl) trivial id rfl
  · intro hCount hDvd
    let t : Setting := ⟨.ofDvd cfg.rxBufferCount cfg.bufferIncrement hCount hIncrement hDvd,
      cfg.rxBufferCount, numTransfers, True, False, False, False⟩
    have hKeeps : Keeps t (rxThread cfg) := rxThread_keeps rfl rfl id
    exact disciplined_of_keeps hKeeps (by rintro (_ | _ | _ | _) <;> rfl) trivial id rfl

theorem pipeline_disciplined_checked_in :
    Disciplined (txThread ⟨1, 32, 1, true, 1024⟩) 1 1 40 ∧
      Disciplined (rxThread ⟨1, 32, 1, true, 1024⟩) 32 1 40 :=
  have h := pipeline_disciplined ⟨1, 32, 1, true, 1024⟩ 40 (by decide)
  ⟨h.1 (by decide) (by decide), h.2 (by decide) (by decide)⟩

end SoftwarePrototypes.DmaProxyTest
