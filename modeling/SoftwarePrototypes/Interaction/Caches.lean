import Mathlib.Data.Option.Basic
import Mathlib.Logic.Function.Basic

/-! # A write-back cache in front of a memory

A held line is a copy of the memory, clean or dirty, and the hardware fills and evicts lines when it
likes. Another master is snooped, or reads and writes past the cache. `Shows V` bounds the values
that the processor can come to see at an address, `Everywhere V` also those in the memory below.
-/

namespace Interaction.Caches

variable {α κ β : Type}

/-- Only what a copy holds at the addresses of its own line counts. -/
structure Copy (α β : Type) where
  bytes : α → β
  dirty : Bool

structure Cached (α κ β : Type) where
  memory : α → β
  held : κ → Option (Copy α β)

namespace Cached

variable (line : α → κ) (V : β → Prop)

def view (s : Cached α κ β) (a : α) : β :=
  match s.held (line a) with
  | some copy => copy.bytes a
  | none => s.memory a

/-- What the processor sees, now or after any fills and evictions. -/
structure Shows (s : Cached α κ β) (a : α) : Prop where
  copy : ∀ copy, s.held (line a) = some copy → V (copy.bytes a)
  memory : (∀ copy, s.held (line a) = some copy → copy.dirty = false) → V (s.memory a)

structure Everywhere (s : Cached α κ β) (a : α) : Prop where
  copy : ∀ copy, s.held (line a) = some copy → V (copy.bytes a)
  memory : V (s.memory a)

/-- The processor has written the value, and its line has not been evicted. -/
def Dirty (v : β) (s : Cached α κ β) (a : α) : Prop :=
  ∃ copy, s.held (line a) = some copy ∧ copy.dirty = true ∧ copy.bytes a = v

/-- The copy that an access to a line finds, filled on a miss. -/
def hit (s : Cached α κ β) (k : κ) : Copy α β := (s.held k).getD ⟨s.memory, false⟩

section Operations

variable [DecidableEq κ]

/-- A dirty copy is written back. -/
def evict (k : κ) (s : Cached α κ β) : Cached α κ β where
  memory a :=
    match s.held k with
    | some copy => if line a = k ∧ copy.dirty = true then copy.bytes a else s.memory a
    | none => s.memory a
  held := Function.update s.held k none

def fill (k : κ) (s : Cached α κ β) : Cached α κ β :=
  { s with held := Function.update s.held k (some (s.hit k)) }

def masterRead (snooped : Bool) (a : α) (s : Cached α κ β) : β :=
  if snooped then s.view line a else s.memory a

variable [DecidableEq α]

def store (a : α) (v : β) (s : Cached α κ β) : Cached α κ β :=
  let copy := ⟨Function.update (s.hit (line a)).bytes a v, true⟩
  { s with held := Function.update s.held (line a) (some copy) }

def poke (a : α) (v : β) (s : Cached α κ β) : Cached α κ β :=
  { s with memory := Function.update s.memory a v }

/-- A snooped write leaves no copy of the line behind. -/
def masterWrite (snooped : Bool) (a : α) (v : β) (s : Cached α κ β) : Cached α κ β :=
  (if snooped then s.evict line (line a) else s).poke a v

end Operations

variable {line V} {W : β → Prop} {s : Cached α κ β} {a a' : α} {k : κ} {v : β}

theorem Shows.mono (hMono : ∀ v, V v → W v) (h : s.Shows line V a) : s.Shows line W a :=
  ⟨fun copy hHeld => hMono _ (h.copy copy hHeld), fun hClean => hMono _ (h.memory hClean)⟩

theorem Everywhere.shows (h : s.Everywhere line V a) : s.Shows line V a :=
  ⟨h.copy, fun _ => h.memory⟩

theorem Shows.view (h : s.Shows line V a) : V (s.view line a) := by
  unfold Cached.view
  split
  case h_1 copy hHeld => exact h.copy copy hHeld
  case h_2 hNone =>
    apply h.memory
    intro copy hHeld
    rw [hNone] at hHeld
    cases hHeld

theorem Shows.of_none (hNone : s.held (line a) = none) (h : V (s.memory a)) :
    s.Everywhere line V a := by
  refine ⟨fun copy hHeld => ?_, h⟩
  rw [hNone] at hHeld
  cases hHeld

/-- An access to the line finds a value that the processor can come to see. -/
theorem Shows.hit (h : s.Shows line V a) : V ((s.hit (line a)).bytes a) := by
  unfold Cached.hit
  cases hHeld : s.held (line a) with
  | some copy => exact h.copy copy hHeld
  | none =>
    apply h.memory
    intro copy hCopy
    rw [hHeld] at hCopy
    cases hCopy

theorem Everywhere.masterRead [DecidableEq κ] (h : s.Everywhere line V a) (snooped : Bool) :
    V (s.masterRead line snooped a) := by
  cases snooped with
  | true => exact h.shows.view
  | false => exact h.memory

theorem Dirty.shows (h : s.Dirty line v a) (hv : V v) : s.Shows line V a := by
  obtain ⟨copy, hHeld, hDirty, rfl⟩ := h
  constructor
  · intro copy' hHeld'
    rw [hHeld] at hHeld'
    cases hHeld'
    exact hv
  · intro hClean
    rw [hClean copy hHeld] at hDirty
    cases hDirty

theorem Dirty.view (h : s.Dirty line v a) : s.view line a = v := by
  obtain ⟨copy, hHeld, -, hValue⟩ := h
  rw [Cached.view, hHeld]
  exact hValue

section Pokes

variable [DecidableEq α]

theorem poke_memory : (s.poke a v).memory a = v := Function.update_self _ _ _

theorem poke_memory_of_ne (hOther : a ≠ a') : (s.poke a' v).memory a = s.memory a :=
  Function.update_of_ne hOther _ _

theorem Everywhere.poke (h : s.Everywhere line V a) (hOther : a ≠ a') :
    (s.poke a' v).Everywhere line V a := by
  refine ⟨h.copy, ?_⟩
  rw [poke_memory_of_ne hOther]
  exact h.memory

theorem Shows.poke (h : s.Shows line V a) (hValue : a = a' → V v) :
    (s.poke a' v).Shows line V a := by
  refine ⟨h.copy, fun hClean => ?_⟩
  by_cases hSame : a = a'
  · subst hSame
    rw [poke_memory]
    exact hValue rfl
  · rw [poke_memory_of_ne hSame]
    exact h.memory hClean

/-- What is written past the cache stays below a dirty copy. -/
theorem Dirty.poke (h : s.Dirty line v a) (v' : β) : (s.poke a' v').Dirty line v a := h

end Pokes

section Steps

variable [DecidableEq κ]

theorem evict_memory (h : s.Shows line V a) (hLine : line a = k) :
    V ((s.evict line k).memory a) := by
  subst hLine
  unfold evict
  cases hHeld : s.held (line a) with
  | none =>
    apply h.memory
    intro copy hCopy
    rw [hHeld] at hCopy
    cases hCopy
  | some copy =>
    cases hDirty : copy.dirty with
    | true => simpa [hDirty] using h.copy copy hHeld
    | false =>
      simp only [hDirty, and_false, Bool.false_eq_true, if_false]
      apply h.memory
      intro copy' hCopy
      rw [hHeld] at hCopy
      cases hCopy
      exact hDirty

theorem evict_memory_of_ne (hOther : line a ≠ k) : (s.evict line k).memory a = s.memory a := by
  unfold evict
  cases s.held k with
  | none => rfl
  | some copy => simp [hOther]

theorem evict_held_of_ne (hOther : line a ≠ k) :
    (s.evict line k).held (line a) = s.held (line a) := Function.update_of_ne hOther _ _

/-- The bytes of an evicted line are in the memory alone. -/
theorem Shows.evicted (h : s.Shows line V a) : (s.evict line (line a)).Everywhere line V a :=
  Shows.of_none (Function.update_self _ _ _) (evict_memory h rfl)

theorem Everywhere.evict (h : s.Everywhere line V a) (k : κ) :
    (s.evict line k).Everywhere line V a := by
  by_cases hLine : line a = k
  · subst hLine
    exact h.shows.evicted
  · constructor
    · rw [evict_held_of_ne hLine]
      exact h.copy
    · rw [evict_memory_of_ne hLine]
      exact h.memory

theorem Shows.evict (h : s.Shows line V a) (k : κ) : (s.evict line k).Shows line V a := by
  by_cases hLine : line a = k
  · subst hLine
    exact h.evicted.shows
  · constructor
    · rw [evict_held_of_ne hLine]
      exact h.copy
    · rw [evict_held_of_ne hLine, evict_memory_of_ne hLine]
      exact h.memory

theorem Dirty.evict (h : s.Dirty line v a) (hOther : line a ≠ k) :
    (s.evict line k).Dirty line v a := by
  obtain ⟨copy, hHeld, hRest⟩ := h
  exact ⟨copy, (evict_held_of_ne hOther).trans hHeld, hRest⟩

theorem fill_held_of_ne (hOther : line a ≠ k) : (s.fill k).held (line a) = s.held (line a) :=
  Function.update_of_ne hOther _ _

theorem fill_held : (s.fill k).held k = some (s.hit k) := Function.update_self _ _ _

theorem Everywhere.fill (h : s.Everywhere line V a) (k : κ) : (s.fill k).Everywhere line V a := by
  refine ⟨fun copy hHeld => ?_, h.memory⟩
  by_cases hLine : line a = k
  · subst hLine
    rw [fill_held] at hHeld
    cases hHeld
    exact h.shows.hit
  · rw [fill_held_of_ne hLine] at hHeld
    exact h.copy copy hHeld

theorem Shows.fill (h : s.Shows line V a) (k : κ) : (s.fill k).Shows line V a := by
  by_cases hLine : line a = k
  · subst hLine
    refine ⟨fun copy hHeld => ?_, fun hClean => h.memory fun copy hHeld => ?_⟩
    · rw [fill_held] at hHeld
      cases hHeld
      exact h.hit
    · -- A line that is held already keeps its copy.
      have hSame : s.hit (line a) = copy := by rw [Cached.hit, hHeld, Option.getD_some]
      exact hClean copy (hSame ▸ fill_held)
  · constructor
    · rw [fill_held_of_ne hLine]
      exact h.copy
    · rw [fill_held_of_ne hLine]
      exact h.memory

theorem Dirty.fill (h : s.Dirty line v a) (k : κ) : (s.fill k).Dirty line v a := by
  obtain ⟨copy, hHeld, hRest⟩ := h
  by_cases hLine : line a = k
  · subst hLine
    refine ⟨copy, ?_, hRest⟩
    rw [fill_held, Cached.hit, hHeld, Option.getD_some]
  · exact ⟨copy, (fill_held_of_ne hLine).trans hHeld, hRest⟩

variable [DecidableEq α]

theorem store_held : (s.store line a v).held (line a) =
    some ⟨Function.update (s.hit (line a)).bytes a v, true⟩ := Function.update_self _ _ _

theorem store_held_of_ne (hOther : line a ≠ line a') :
    (s.store line a' v).held (line a) = s.held (line a) := Function.update_of_ne hOther _ _

theorem dirty_store (s : Cached α κ β) (a : α) (v : β) : (s.store line a v).Dirty line v a :=
  ⟨_, store_held, rfl, Function.update_self _ _ _⟩

/-- A store to another address, be it on the same line or not. -/
theorem store_other (hOther : a ≠ a') {copy : Copy α β}
    (hHeld : (s.store line a' v).held (line a) = some copy) :
    line a ≠ line a' ∧ s.held (line a) = some copy ∨
      copy.dirty = true ∧ copy.bytes a = (s.hit (line a)).bytes a := by
  by_cases hLine : line a = line a'
  · rw [hLine, store_held] at hHeld
    cases hHeld
    rw [hLine]
    exact .inr ⟨rfl, Function.update_of_ne hOther _ _⟩
  · rw [store_held_of_ne hLine] at hHeld
    exact .inl ⟨hLine, hHeld⟩

theorem Everywhere.store (h : s.Everywhere line V a) (hOther : a ≠ a') :
    (s.store line a' v).Everywhere line V a := by
  refine ⟨fun copy hHeld => ?_, h.memory⟩
  rcases store_other hOther hHeld with ⟨-, hSame⟩ | ⟨-, hBytes⟩
  · exact h.copy copy hSame
  · rw [hBytes]
    exact h.shows.hit

theorem Shows.store (h : s.Shows line V a) (hValue : a = a' → V v) :
    (s.store line a' v).Shows line V a := by
  by_cases hSame : a = a'
  · subst hSame
    exact (dirty_store s a v).shows (hValue rfl)
  refine ⟨fun copy hHeld => ?_, fun hClean => h.memory fun copy hHeld => ?_⟩
  · rcases store_other hSame hHeld with ⟨-, hKept⟩ | ⟨-, hBytes⟩
    · exact h.copy copy hKept
    · rw [hBytes]
      exact h.hit
  · by_cases hLine : line a = line a'
    · rw [hLine, store_held] at hClean
      cases hClean _ rfl
    · exact hClean copy (by rw [store_held_of_ne hLine, hHeld])

/-- Another store to the line leaves the value in its copy. -/
theorem Dirty.store (h : s.Dirty line v a) {v' : β} (hValue : a = a' → v' = v) :
    (s.store line a' v').Dirty line v a := by
  by_cases hSame : a = a'
  · rw [← hSame, hValue hSame]
    exact dirty_store s a v
  obtain ⟨copy, hHeld, hDirty, hBytes⟩ := h
  by_cases hLine : line a = line a'
  · have hStored : (s.store line a' v').held (line a') =
        some ⟨Function.update (s.hit (line a')).bytes a' v', true⟩ := store_held
    rw [← hLine] at hStored
    refine ⟨_, hStored, rfl, ?_⟩
    dsimp only
    rw [Function.update_of_ne hSame, hit, hHeld]
    exact hBytes
  · exact ⟨copy, (store_held_of_ne hLine).trans hHeld, hDirty, hBytes⟩

theorem Everywhere.masterWrite (h : s.Everywhere line V a) (hOther : a ≠ a') (snooped : Bool) :
    (s.masterWrite line snooped a' v).Everywhere line V a := by
  cases snooped with
  | true => exact (h.evict (line a')).poke hOther
  | false => exact h.poke hOther

theorem Shows.masterWrite (h : s.Shows line V a) (snooped : Bool) (hValue : a = a' → V v) :
    (s.masterWrite line snooped a' v).Shows line V a := by
  cases snooped with
  | true => exact (h.evict (line a')).poke hValue
  | false => exact h.poke hValue

/-- What a snooped master writes is seen, whatever was held. -/
theorem shows_masterWrite (s : Cached α κ β) (a : α) (hv : V v) :
    (s.masterWrite line true a v).Shows line V a := by
  apply Everywhere.shows
  apply Shows.of_none
  · exact Function.update_self _ _ _
  · rw [Cached.masterWrite, poke_memory]
    exact hv

end Steps

end Cached

end Interaction.Caches
