import HandheldUI.Scalar

/-!
Machine numbers as scalars. A finite number is taken apart into ± mantissa · 2 ^ exponent;
truncation and remainder are then exact on integers, and their results are machine numbers again.
-/

namespace HandheldUI.Binary64

/-- A finite machine number, ± mantissa · 2 ^ exponent. -/
structure Parts where
  negative : Bool
  mantissa : Nat
  exponent : Int
  deriving Repr, DecidableEq

/-- The bit that a normal number does not write, 2 ^ 52. -/
def hidden : Nat := 4503599627370496

/-- The parts of a finite number. Below the smallest normal one the exponent stays where it is. -/
def parts? (x : Float) : Option Parts :=
  let bits := x.toBits.toNat
  let field := bits / hidden % 2048
  let fraction := bits % hidden
  if field = 2047 then none
  else some
    { negative := 2048 * hidden ≤ bits
      mantissa := if field = 0 then fraction else hidden + fraction
      exponent := Int.ofNat (if field = 0 then 1 else field) - 1075 }

def signed (negative : Bool) (magnitude : Nat) : Int :=
  if negative then -magnitude else magnitude

/-- The value rounded toward zero. -/
def Parts.truncate (p : Parts) : Int :=
  match p.exponent with
  | .ofNat k => signed p.negative (p.mantissa <<< k)
  | .negSucc k => signed p.negative (p.mantissa >>> (k + 1))

/-- The machine number nearest to the value: the value itself, where it is one. A power of two below
the point is written as one of five over one of ten. -/
def Parts.toFloat (p : Parts) : Float :=
  let magnitude :=
    match p.exponent with
    | .ofNat k => Float.ofNat (p.mantissa <<< k)
    | .negSucc k => Float.ofScientific (p.mantissa * Nat.pow 5 (k + 1)) true (k + 1)
  if p.negative then -magnitude else magnitude

/-- The remainder, both values brought to the smaller exponent. -/
def Parts.rem (p q : Parts) : Parts :=
  let e := if p.exponent ≤ q.exponent then p.exponent else q.exponent
  let m := p.mantissa <<< (p.exponent - e).toNat
  let n := q.mantissa <<< (q.exponent - e).toNat
  { negative := p.negative, mantissa := m % n, exponent := e }

/-- An infinite divisor leaves a finite number as it is; a zero divisor, or an infinite dividend,
has no remainder. -/
def rem (x y : Float) : Float :=
  match parts? x, parts? y with
  | some p, some q => if q.mantissa = 0 then 0 / 0 else (p.rem q).toFloat
  | some _, none => if y.isNaN then y else x
  | none, _ => 0 / 0

instance : Scalar Float where
  isLT := Float.lt
  isLE := Float.le
  isLT_iff _ _ := Iff.rfl
  isLE_iff _ _ := Iff.rfl
  ofInt := Float.ofInt
  truncate? x := (parts? x).map Parts.truncate
  rem := rem

end HandheldUI.Binary64
