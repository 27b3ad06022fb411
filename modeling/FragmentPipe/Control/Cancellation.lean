/-!
Cancellation tokens. Tokens that descend from one another share a flag, so cancelling any of them
cancels all. Main statement: `Tokens.isCancelled_cancel_of_shared`.
-/

namespace FragmentPipe

/-- Tokens in the order of their creation, each with the number of its flag. -/
structure Tokens where
  flags : Array Bool
  owners : Array Nat
  deriving Repr

namespace Tokens

/-- One token that is not cancelled. -/
def one : Tokens := ⟨#[false], #[0]⟩

/-- The flag of a token. -/
def flagOf (t : Tokens) (token : Nat) : Nat := t.owners.getD token 0

/-- Whether a token is cancelled. -/
def isCancelled (t : Tokens) (token : Nat) : Bool := t.flags.getD (t.flagOf token) false

/-- Cancels a token; the answer tells whether it was the first time. -/
def cancel (t : Tokens) (token : Nat) : Bool × Tokens :=
  (!t.isCancelled token, { t with flags := t.flags.setIfInBounds (t.flagOf token) true })

/-- Appends a token that shares the flag of another. -/
def child (t : Tokens) (token : Nat) : Tokens := { t with owners := t.owners.push (t.flagOf token) }

/-- Appends a token with a flag of its own. -/
def fresh (t : Tokens) : Tokens := ⟨t.flags.push false, t.owners.push t.flags.size⟩

/-- The state of every token. -/
def states (t : Tokens) : List Bool := (List.range t.owners.size).map t.isCancelled

theorem isCancelled_cancel_of_shared (t : Tokens) {a b : Nat} (h : t.flagOf a = t.flagOf b)
    (inside : t.flagOf a < t.flags.size) : (t.cancel a).2.isCancelled b = true := by
  have same : (t.cancel a).2.flagOf b = t.flagOf b := rfl
  simp only [isCancelled, same, ← h]
  simp [cancel, inside]

end Tokens

end FragmentPipe
