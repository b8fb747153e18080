import Mathlib.Logic.Basic

/-! # A request, its response and a flag

One side writes a request and raises the flag; the other side writes the response and clears it.
`Awaits` is what the requester relies on, whatever the responder does before it clears the flag,
and `Offers` is what the responder relies on, though a request may be posted again.
-/

namespace Interaction.Handshakes

variable {Q R : Type}

@[ext]
structure Slot (Q R : Type) where
  request : Q
  response : R
  pending : Bool

namespace Slot

def post (s : Slot Q R) (request : Q) : Slot Q R := { s with request }

def raise (s : Slot Q R) : Slot Q R := { s with pending := true }

def respond (s : Slot Q R) (response : R) : Slot Q R := { s with response }

def clear (s : Slot Q R) : Slot Q R := { s with pending := false }

end Slot

variable {answer : Q → R} {s s' s'' : Slot Q R}

structure Awaits (answer : Q → R) (s s' : Slot Q R) : Prop where
  request : s'.request = s.request
  idle : s.pending = false → s' = s
  served : s.pending = true → s'.pending = false → s'.response = answer s.request

structure Offers (s s' : Slot Q R) : Prop where
  response : s'.response = s.response
  pending : s.pending = true → s'.pending = true ∧ s'.request = s.request

/-- The request is being served, or its answer is there. -/
def Outstanding (answer : Q → R) (s : Slot Q R) : Prop :=
  s.pending = true ∨ s.response = answer s.request

theorem Awaits.refl (answer : Q → R) (s : Slot Q R) : Awaits answer s s :=
  ⟨rfl, fun _ => rfl, fun hUp hDown => (Bool.false_ne_true (hDown.symm.trans hUp)).elim⟩

theorem Awaits.trans (h : Awaits answer s s') (h' : Awaits answer s' s'') :
    Awaits answer s s'' where
  request := h'.request.trans h.request
  idle hDown := by
    obtain rfl := h.idle hDown
    exact h'.idle hDown
  served hUp hDown := by
    cases hBetween : s'.pending with
    | true => exact (h'.served hBetween hDown).trans (congrArg answer h.request)
    | false =>
      rw [h'.idle hBetween]
      exact h.served hUp hBetween

theorem Awaits.respond (hUp : s.pending = true) (response : R) :
    Awaits answer s (s.respond response) where
  request := rfl
  idle hDown := (Bool.false_ne_true (hDown.symm.trans hUp)).elim
  served _ hDown := (Bool.false_ne_true (hDown.symm.trans hUp)).elim

theorem Awaits.clear (hUp : s.pending = true) (hAnswered : s.response = answer s.request) :
    Awaits answer s s.clear where
  request := rfl
  idle hDown := (Bool.false_ne_true (hDown.symm.trans hUp)).elim
  served _ _ := hAnswered

theorem Awaits.serve (hUp : s.pending = true) :
    Awaits answer s (s.respond (answer s.request)).clear :=
  (Awaits.respond hUp _).trans (Awaits.clear hUp rfl)

theorem Offers.refl (s : Slot Q R) : Offers s s := ⟨rfl, fun hUp => ⟨hUp, rfl⟩⟩

theorem Offers.trans (h : Offers s s') (h' : Offers s' s'') : Offers s s'' where
  response := h'.response.trans h.response
  pending hUp := by
    obtain ⟨hUp', hRequest⟩ := h.pending hUp
    obtain ⟨hUp'', hRequest'⟩ := h'.pending hUp'
    exact ⟨hUp'', hRequest'.trans hRequest⟩

/-- A request may be posted while the flag is up if it is the one that is there. -/
theorem Offers.post {request : Q} (h : s.pending = true → request = s.request) :
    Offers s (s.post request) := ⟨rfl, fun hUp => ⟨hUp, h hUp⟩⟩

theorem Offers.raise (s : Slot Q R) : Offers s s.raise := ⟨rfl, fun _ => ⟨rfl, rfl⟩⟩

theorem Outstanding.moved (h : Outstanding answer s) (hMove : Awaits answer s s') :
    Outstanding answer s' := by
  cases hUp : s.pending with
  | false => exact (hMove.idle hUp).symm ▸ h
  | true =>
    cases hUp' : s'.pending with
    | true => exact .inl hUp'
    | false => exact .inr ((hMove.served hUp hUp').trans (congrArg answer hMove.request.symm))

theorem outstanding_raise (s : Slot Q R) : Outstanding answer s.raise := .inl rfl

theorem Outstanding.answered (h : Outstanding answer s) (hDown : s.pending = false) :
    s.response = answer s.request := by
  rcases h with hUp | hAnswered
  · exact (Bool.false_ne_true (hDown.symm.trans hUp)).elim
  · exact hAnswered

end Interaction.Handshakes
