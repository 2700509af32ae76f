/-!
Numbers that the interface computes with. Everything here is written once over `Scalar`, so that the
same layout and the same animation run on machine numbers and are reasoned about on exact ones.
-/

namespace HandheldUI

/-- Arithmetic with a truncation toward zero. No law of arithmetic is asked for: a value need not be
finite, and a comparison with such a value may fail both ways. -/
class Scalar (α : Type) extends Add α, Sub α, Mul α, Div α, Neg α, LT α, LE α, OfScientific α where
  isLT : α → α → Bool
  isLE : α → α → Bool
  isLT_iff : ∀ x y, isLT x y = true ↔ x < y
  isLE_iff : ∀ x y, isLE x y = true ↔ x ≤ y
  ofInt : Int → α
  /-- The integer part toward zero; `none` for a value that is not finite. -/
  truncate? : α → Option Int
  /-- The remainder that has the sign of the dividend. -/
  rem : α → α → α

namespace Scalar

variable {α : Type} [Scalar α]

instance (x y : α) : Decidable (x < y) := decidable_of_iff _ (isLT_iff x y)

instance (x y : α) : Decidable (x ≤ y) := decidable_of_iff _ (isLE_iff x y)

instance (priority := low) (n : Nat) : OfNat α n := ⟨ofInt n⟩

def ofNat (n : Nat) : α := ofInt n

def isFinite (x : α) : Bool := (truncate? x).isSome

/-- The integer part toward zero; a value that is not finite stays what it is. -/
def trunc (x : α) : α :=
  match truncate? x with
  | some i => ofInt i
  | none => x

/-- The integer that `x` is. -/
def integer? (x : α) : Option Int :=
  (truncate? x).filter fun i => x ≤ ofInt i ∧ ofInt i ≤ x

/-- The natural number below `n` that `x` is. -/
def index? (x : α) (n : Nat) : Option Nat :=
  match integer? x with
  | some (.ofNat i) => if i < n then some i else none
  | _ => none

/-- The larger of two values. Two values without an order have a sum that is no number either. -/
def max (x y : α) : α := if x < y then y else if y ≤ x then x else x + y

def min (x y : α) : α := if y < x then y else if x ≤ y then x else x + y

/-- The value kept within 0 and 1; 0 for what is not above 0. -/
def toUnit (x : α) : α := if 0 < x then (if 1 < x then 1 else x) else 0

end Scalar

instance : Scalar Rat where
  isLT x y := decide (x < y)
  isLE x y := decide (x ≤ y)
  isLT_iff _ _ := decide_eq_true_iff
  isLE_iff _ _ := decide_eq_true_iff
  ofInt i := i
  truncate? q := some (q.num.tdiv q.den)
  rem x y := x - y * ((x / y).num.tdiv (x / y).den : Int)

end HandheldUI
