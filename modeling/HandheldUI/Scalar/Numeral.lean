import HandheldUI.Scalar.Binary64

/-!
The written form of a machine number: the fewest digits that read back as the number, and of those
the nearest to it. A number is measured in quarters of its last binary place, where the numbers that
round to it are a range of integers.
-/

namespace HandheldUI.Numeral

/-- The value `digits · 10 ^ place`. -/
structure Decimal where
  digits : Nat
  place : Int
  deriving Repr, DecidableEq

/-- Quarters of the last binary place: the number, and the range that rounds to it. The ends belong
to the range if the mantissa is even. Below a power of two the neighbours are twice as dense. -/
structure Rounding where
  value : Nat
  low : Nat
  high : Nat
  ends : Bool
  exponent : Int

def Rounding.ofParts (p : Binary64.Parts) : Rounding where
  value := 4 * p.mantissa
  low :=
    if p.mantissa = Binary64.hidden ∧ -1074 < p.exponent then 4 * p.mantissa - 1
    else 4 * p.mantissa - 2
  high := 4 * p.mantissa + 2
  ends := p.mantissa % 2 = 0
  exponent := p.exponent - 2

/-- The grid point of `10 ^ place` nearest to the number, among those that round to it. Of two that
are equally near, the even one. -/
def Rounding.atPlace (r : Rounding) (place : Int) : Option Decimal :=
  let unit := Nat.pow 10 (-place).toNat <<< r.exponent.toNat
  let grid := Nat.pow 10 place.toNat <<< (-r.exponent).toNat
  let hit (d : Nat) : Bool :=
    if r.ends then r.low * unit ≤ d * grid ∧ d * grid ≤ r.high * unit
    else r.low * unit < d * grid ∧ d * grid < r.high * unit
  let below := r.value * unit / grid
  let toBelow := r.value * unit - below * grid
  let toAbove := (below + 1) * grid - r.value * unit
  let belowFirst := toBelow < toAbove || (toBelow == toAbove && below % 2 == 0)
  let (near, far) := if belowFirst then (below, below + 1) else (below + 1, below)
  if hit near then some ⟨near, place⟩ else if hit far then some ⟨far, place⟩ else none

/-- The first hit among `n` places, from `place` downward. -/
def Rounding.search (r : Rounding) : Nat → Int → Option Decimal
  | 0, _ => none
  | n + 1, place => (r.atPlace place).or (r.search n (place - 1))

/-- The shortest decimal of a number above 0: every machine number lies on a grid between 10 ^ 309
and 10 ^ -324. -/
def shortest? (p : Binary64.Parts) : Option Decimal :=
  if p.mantissa = 0 then none else (Rounding.ofParts p).search 634 309

/-- The digits without zeros at the end, and how many stand before the point. -/
def Decimal.spread (d : Decimal) : List Char × Int :=
  let all := Nat.toDigits 10 d.digits
  ((all.reverse.dropWhile (· == '0')).reverse, all.length + d.place)

/-- Positional up to 21 places before the point and 6 zeros after it; else one digit, the point and
the power of ten. -/
def layOut (digits : List Char) (before : Int) : String :=
  let n := digits.length
  if n ≤ before ∧ before ≤ 21 then
    String.ofList (digits ++ List.replicate (before.toNat - n) '0')
  else if 0 < before ∧ before ≤ 21 then
    String.ofList (digits.take before.toNat ++ '.' :: digits.drop before.toNat)
  else if -6 < before ∧ before ≤ 0 then
    String.ofList ('0' :: '.' :: List.replicate (-before).toNat '0' ++ digits)
  else
    let power := before - 1
    let lead := digits.take 1 ++ (if n = 1 then [] else '.' :: digits.drop 1)
    String.ofList lead ++ "e" ++ (if power < 0 then "-" else "+") ++ toString power.natAbs

/-- A number as text. Zero has no sign. -/
def text (x : Float) : String :=
  match Binary64.parts? x with
  | none => if x.isNaN then "NaN" else if x < 0 then "-Infinity" else "Infinity"
  | some p =>
    match shortest? p with
    | none => "0"
    | some d =>
      let (digits, before) := d.spread
      (if p.negative then "-" else "") ++ layOut digits before

end HandheldUI.Numeral
