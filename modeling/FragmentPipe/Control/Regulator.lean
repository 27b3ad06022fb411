/-!
Rate regulators. A side of a pipe may have one; at the start of each batch it is asked, with the
side's position, for how many nanoseconds to wait. What it answers may depend on everything that it
was asked before.
-/

namespace FragmentPipe

/-- A regulator remembers the positions that it was asked for, the latest one last; its policy gives
a delay for what it remembers and a position. -/
structure Regulator where
  policy : List Int → Int → Nat
  asked : List Int

namespace Regulator

/-- A regulator that has not been asked yet and counts its calls, the first one being one. -/
def ofPolicy (policy : Nat → Int → Nat) : Regulator :=
  ⟨fun asked position => policy (asked.length + 1) position, []⟩

/-- One question at a position. -/
def ask (r : Regulator) (position : Int) : Nat × Regulator :=
  (r.policy r.asked position, { r with asked := r.asked ++ [position] })

/-- Asks the regulator that is there; without one there is no delay. -/
def askOption (r : Option Regulator) (position : Int) : Nat × Option Regulator :=
  match r with
  | none => (0, none)
  | some r => ((r.ask position).1, some (r.ask position).2)

end Regulator

end FragmentPipe
