import SoftwarePrototypes.DmaProxyTest.Interleaving

/-! # End-to-end data verification

The first loop sends the count of transfers in progress, the second
`TX_BUFFER_COUNT / BUFFER_INCREMENT - 1 + counter`. The two agree as long as the quotient is the
number of slots of the transmit ring; with an increment above the buffer count it is 0, and the
ring has one slot.
-/

namespace SoftwarePrototypes.DmaProxyTest

open Interaction Interaction.Prog

/-- Each received buffer holds the number of its transfer when it is checked, and no check
fails. -/
def Verified (st : State) : Prop :=
  (∀ b i, (st.code .rx).head = some (.readWord b i) → (st.channel .rx).words b i =
    BitVec.ofNat 32 ((st.channel .rx).ledger.finishes.length - 1)) ∧
  ∀ i data expected, (st.code .rx).head ≠ some (.printNotEqual i data expected)

theorem Inv.verified {t : Side → Setting} {st : State} (h : Inv t st)
    (hReceives : (t .rx).receives) : Verified st := by
  constructor
  · intro b i hHead
    obtain ⟨s, f, hMatches, _, _, rfl, _, hWord⟩ := h.safe_head hHead
    have hLength := hMatches.finishes_length
    rw [State.view] at hLength
    rw [hLength]
    exact hWord hReceives
  · intro i data expected hHead
    obtain ⟨_, _, _, _, _, hSilent⟩ := h.safe_head hHead
    exact hSilent hReceives

/-- A configuration whose ring positions are all started in the first loop. -/
structure Ringed (cfg : Config) : Prop where
  increment : 0 < cfg.bufferIncrement
  count : ∀ side, 0 < bufferCount cfg side
  revisits : ∀ side, Ring.Revisits (bufferCount cfg side) cfg.bufferIncrement

def ring {cfg : Config} (h : Ringed cfg) (side : Side) : Ring :=
  .ofRevisits (bufferCount cfg side) cfg.bufferIncrement (h.count side) h.increment
    (h.revisits side)

def verifying {cfg : Config} (h : Ringed cfg) (numTransfers : Int) : Side → Setting
  | .tx => ⟨ring h .tx, cfg.rxBufferCount, numTransfers, True, True, True, False⟩
  | .rx => ⟨ring h .rx, cfg.rxBufferCount, numTransfers, True, False, False, True⟩

theorem verifying_wired {cfg : Config} (h : Ringed cfg) {numTransfers : Int}
    (hVerify : cfg.verify = true) (hWord : 4 ≤ cfg.testSize)
    (hWhen : cfg.bufferIncrement ≤ cfg.txBufferCount ∨ numTransfers = 1) :
    Wired cfg (verifying h numTransfers) True := by
  have hCount : 0 < wordCount cfg := Nat.div_pos hWord (by decide)
  have hSlots : cfg.txBufferCount / cfg.bufferIncrement = (ring h .tx).slots ∨
      True ∧ numTransfers ≤ 1 := by
    rcases hWhen with hLe | rfl
    · left
      have hMul : (ring h .tx).slots * cfg.bufferIncrement = cfg.txBufferCount :=
        (ring h .tx).slots_mul_stride hLe
      rw [← hMul, Nat.mul_div_cancel _ h.increment]
    · exact .inr ⟨trivial, le_rfl⟩
  refine ⟨?_, ?_, ?_, ?_, id, fun _ => ⟨trivial, hCount⟩, id, id⟩
  · rintro (_ | _)
    · exact txThread_keeps rfl rfl trivial rfl fun _ => ⟨hVerify, hCount, hSlots⟩
    · exact rxThread_keeps rfl rfl id
  · rintro (_ | _) <;> rfl
  · rintro (_ | _) <;> rfl
  · rintro (_ | _) <;> exact Iff.rfl

theorem guard_of_calm {t : Side → Setting} {st : State} {label : Label} (h : Inv t st)
    (hCalm : ∀ side, (t side).calm) (hLabel : label ≠ .sigint) : Guard t True st label := by
  refine ⟨fun _ => hLabel, ?_⟩
  intro side value _ hHead
  obtain ⟨_, _, _, _, _, hAgitated, _⟩ := h.safe_head hHead
  exact absurd (hCalm side) hAgitated

theorem transfers_verified (cfg : Config) (numTransfers : Int)
    (words : Side → Nat → Nat → BitVec 32) (h : Ringed cfg) (hVerify : cfg.verify = true)
    (hWord : 4 ≤ cfg.testSize)
    (hWhen : cfg.bufferIncrement ≤ cfg.txBufferCount ∨ numTransfers = 1)
    {labels : List Label} (hCalm : ∀ label ∈ labels, label ≠ .sigint) {final : State}
    (hRun : Runs.run (step cfg) (initial cfg numTransfers words) labels = some final) :
    Verified final := by
  have hWired := verifying_wired h hVerify hWord hWhen
  have hInv : Inv (verifying h numTransfers) final := by
    apply inv_run hWired _ _ (Runs.Along.of_labels hCalm _) hRun
    · intro st label hInv hLabel
      exact guard_of_calm hInv (fun side => (hWired.calm side).mpr trivial) hLabel
    · rintro (_ | _) <;> rfl
  exact hInv.verified trivial

def skipping (txBufferCount : Nat) : Config := ⟨txBufferCount, 32, 2, true, 1024⟩

theorem skipping_ringed {txBufferCount : Nat} (hPos : 0 < txBufferCount)
    (h : Ring.Revisits txBufferCount 2) : Ringed (skipping txBufferCount) where
  increment := Nat.succ_pos 1
  count := by
    rintro (_ | _)
    · exact hPos
    · exact Nat.succ_pos 31
  revisits := by
    rintro (_ | _)
    · exact h
    · have hEven : Ring.Revisits 32 2 := fun k h => ⟨(k * 2 + 2) % 32 / 2, by omega, by omega⟩
      exact hEven

def skippingLabels : List Label :=
  List.replicate 4 (.thread .tx) ++ List.replicate 6 (.thread .rx) ++ .engine ::
    List.replicate 261 (.thread .tx) ++ List.replicate 4 (.thread .rx) ++
    .engine :: List.replicate 2 (.thread .rx)

theorem skippingLabels_calm : ∀ label ∈ skippingLabels, label ≠ .sigint := by decide +kernel

theorem transfers_verified_two_buffers :
    Verified ((Runs.run (step (skipping 2)) (initial (skipping 2) 2 fun _ _ _ => 0)
      skippingLabels).get (by decide +kernel)) :=
  transfers_verified (skipping 2) 2 (fun _ _ _ => 0)
    (skipping_ringed (by decide) fun k h => ⟨0, by omega, by omega⟩) rfl (by decide)
    (.inl (by decide)) skippingLabels_calm (Option.some_get _).symm

def failsCheck (st : State) : Bool :=
  match st.code .rx with
  | .call (.printNotEqual _ _ _) _ => true
  | _ => false

theorem Verified.not_fails {st : State} (h : Verified st) : failsCheck st = false := by
  unfold failsCheck
  split
  · rename_i i data expected rest hCode
    exact absurd (congrArg Prog.head hCode) (h.2 i data expected)
  · rfl

/-- With one transmit buffer the quotient is 0: the second transfer carries 0, not 1. -/
theorem transfers_unverified : ¬ ∀ (cfg : Config) (numTransfers : Int)
    (words : Side → Nat → Nat → BitVec 32), Ringed cfg → cfg.txBufferCount ≤ 32 →
    cfg.rxBufferCount ≤ 32 → cfg.verify = true → 4 ≤ cfg.testSize → 1 ≤ numTransfers →
    ∀ labels : List Label, (∀ label ∈ labels, label ≠ .sigint) → ∀ final,
      Runs.run (step cfg) (initial cfg numTransfers words) labels = some final →
      Verified final := by
  intro hAll
  have hFails : (Runs.run (step (skipping 1)) (initial (skipping 1) 2 fun _ _ _ => 0)
      skippingLabels).any failsCheck = true := by decide +kernel
  obtain ⟨final, hRun, hFinal⟩ := (Option.any_eq_true _ _).mp hFails
  have hVerified := hAll (skipping 1) 2 (fun _ _ _ => 0)
    (skipping_ringed (by decide) fun k h => ⟨0, by omega, by omega⟩) (by decide) (by decide) rfl
    (by decide) (by decide) skippingLabels skippingLabels_calm final hRun
  rw [hVerified.not_fails] at hFinal
  cases hFinal

end SoftwarePrototypes.DmaProxyTest
