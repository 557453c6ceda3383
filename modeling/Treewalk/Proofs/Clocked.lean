import Treewalk.Token

/-! Procedures that share a state and may be broken off. A procedure that loops or recurs has a
clock, which bounds how deep its calls may go. It settles if from some clock on it comes to an end,
always with the same result. -/

namespace Treewalk

variable {σ α β : Type} {s s₁ s₂ : σ}

/-- What would break a procedure off. -/
inductive Breach where
  | outOfRange (index : Nat)
  | noSlice (start stop : Nat)
  | belowZero (a b : Nat)
  | unknownOperator (kind : TokenKind)

/-- A procedure gives a result and a new state, or is broken off, or has not come to an end when
the clock has run down. -/
abbrev Clocked (σ : Type) : Type → Type := StateT σ (ExceptT Breach Option)

def unfinished : Clocked σ α := fun _ => none

def difference (a b : Nat) : Clocked σ Nat :=
  if b ≤ a then pure (a - b) else throw (.belowZero a b)

/-- Does the body again and again while the condition holds. -/
def repeatWhile (condition : σ → Bool) (body : Nat → Clocked σ Unit) : Nat → Clocked σ Unit
  | 0 => unfinished
  | clock + 1 => do
    if condition (← get) then
      body clock
      repeatWhile condition body clock

/-- The procedure comes to an end with a result and a new state. -/
def Returns (p : Clocked σ α) (s : σ) (a : α) (s' : σ) : Prop :=
  (p s : Option (Except Breach (α × σ))) = some (.ok (a, s'))

theorem returns_pure (a : α) (s : σ) : Returns (pure a) s a s := rfl

theorem returns_get (s : σ) : Returns get s s s := rfl

theorem returns_modify (f : σ → σ) (s : σ) : Returns (modify f) s () (f s) := rfl

theorem Returns.bind {p : Clocked σ α} {next : α → Clocked σ β} {a : α} {b : β}
    (hp : Returns p s a s₁) (hnext : Returns (next a) s₁ b s₂) : Returns (p >>= next) s b s₂ := by
  have hbind : (p >>= next) s = ExceptT.bind (p s) fun x => next x.1 x.2 := rfl
  have hp : p s = some (.ok (a, s₁)) := hp
  rw [Returns, hbind, hp]
  exact hnext

theorem returns_difference {a b : Nat} (h : b ≤ a) (s : σ) :
    Returns (difference a b) s (a - b) s := by
  rw [difference, if_pos h]
  exact returns_pure _ _

/-- The procedure returns as soon as the clock lets it. -/
def Settles (p : Nat → Clocked σ α) (s : σ) (a : α) (s' : σ) : Prop :=
  ∃ enough, ∀ clock, enough ≤ clock → Returns (p clock) s a s'

theorem Returns.settles {p : Clocked σ α} {a : α} (h : Returns p s a s₁) :
    Settles (fun _ => p) s a s₁ :=
  ⟨0, fun _ _ => h⟩

/-- A procedure that spends one tick and goes on as another. -/
theorem Settles.tick {p q : Nat → Clocked σ α} {a : α} (hq : Settles q s a s₁)
    (h : ∀ clock, p (clock + 1) = q clock) : Settles p s a s₁ := by
  obtain ⟨n, hn⟩ := hq
  refine ⟨n + 1, fun clock hclock => ?_⟩
  obtain ⟨m, rfl⟩ : ∃ m, clock = m + 1 := ⟨clock - 1, by omega⟩
  rw [h]
  exact hn m (by omega)

section Loops

variable {condition : σ → Bool} {body : Nat → Clocked σ Unit}

theorem settles_stop (h : condition s = false) : Settles (repeatWhile condition body) s () s := by
  refine ⟨1, fun clock hclock => ?_⟩
  obtain ⟨m, rfl⟩ : ∃ m, clock = m + 1 := ⟨clock - 1, by omega⟩
  refine (returns_get s).bind ?_
  rw [h]
  exact returns_pure () s

theorem Settles.turn (h : condition s = true) (hbody : Settles body s () s₁)
    (hrest : Settles (repeatWhile condition body) s₁ () s₂) :
    Settles (repeatWhile condition body) s () s₂ := by
  obtain ⟨n, hn⟩ := hbody
  obtain ⟨n', hn'⟩ := hrest
  refine ⟨max n n' + 1, fun clock hclock => ?_⟩
  obtain ⟨m, rfl⟩ : ∃ m, clock = m + 1 := ⟨clock - 1, by omega⟩
  refine (returns_get s).bind ?_
  rw [h]
  exact (hn m (by omega)).bind (hn' m (by omega))

end Loops

end Treewalk
