import RobotLang.Number.Binary64
import RobotLang.Number.Digits

namespace RobotLang.Number

/-- A positive value times four, with the ends of the interval of reals that are rounded to it,
all in units of `2 ^ exponent`. The ends belong to the interval if the significand is even. -/
structure Interval where
  low : Nat
  value : Nat
  high : Nat
  exponent : Int
  closed : Bool

namespace Interval

def around (significand : Nat) (exponent : Int) : Interval :=
  let below := if significand = Binary64.hidden ∧ Binary64.minExponent < exponent then 1 else 2
  ⟨4 * significand - below, 4 * significand, 4 * significand + 2, exponent - 2,
    significand % 2 = 0⟩

def unit (i : Interval) (k : Int) : Nat × Nat :=
  let powerOfTwo := dividedByPower 2 (-i.exponent) 1 1
  dividedByPower 10 k powerOfTwo.1 powerOfTwo.2

def contains (i : Interval) (k : Int) (n : Nat) : Bool :=
  let u := i.unit k
  if i.closed then i.low * u.1 ≤ n * u.2 && n * u.2 ≤ i.high * u.1
  else i.low * u.1 < n * u.2 && n * u.2 < i.high * u.1

/-- The multiple of `10 ^ k` in the interval that is nearest to the value, a tie going to the
even one. Only the two neighbours of the value can be it. -/
def nearestOn (i : Interval) (k : Int) : Option Nat :=
  let u := i.unit k
  let n := i.value * u.1 / u.2
  match i.contains k n, i.contains k (n + 1) with
  | true, true => some (roundedQuotient (i.value * u.1) u.2)
  | true, false => some n
  | false, true => some (n + 1)
  | false, false => none

def coarsest (i : Interval) : Nat → Int → Nat × Int
  | 0, k => (i.value, k)
  | steps + 1, k =>
    match i.nearestOn k with
    | some n => (n, k)
    | none => coarsest i steps (k - 1)

/-- A power of ten above the whole interval, from `log10 2 < 30103 / 100000`. -/
def topPower (i : Interval) : Int := ((i.high.log2 + 1 : Int) + i.exponent) * 30103 / 100000 + 2

end Interval

def shortestDigits (significand : Nat) (exponent : Int) : Nat × Int :=
  let i := Interval.around significand exponent
  i.coarsest 24 i.topPower

structure DecimalLayout where
  minPositional : Int
  maxPositional : Int
  exponentWidth : Nat

namespace DecimalLayout

def positional (digits : String) (k : Int) : String :=
  let point := digits.length + k
  let zeros := fun n : Nat => String.ofList (List.replicate n '0')
  if point ≤ 0 then "0." ++ zeros point.natAbs ++ digits
  else if 0 ≤ k then digits ++ zeros k.natAbs ++ ".0"
  else String.ofList (digits.toList.take point.natAbs) ++ "." ++
    String.ofList (digits.toList.drop point.natAbs)

def scientific (layout : DecimalLayout) (digits : String) (power : Int) : String :=
  let first := String.ofList (digits.toList.take 1)
  let more := String.ofList (digits.toList.drop 1)
  let mantissa := if more = "" then first else first ++ "." ++ more
  mantissa ++ String.ofList (exponentText layout.exponentWidth power)

def decimal (layout : DecimalLayout) (n : Nat) (k : Int) : String :=
  let digits := toString n
  let power := digits.length + k - 1
  if layout.minPositional ≤ power ∧ power ≤ layout.maxPositional then positional digits k
  else layout.scientific digits power

def text (layout : DecimalLayout) : Binary64 → String
  | .nan => "nan"
  | .infinite negative => if negative then "-inf" else "inf"
  | .finite negative significand exponent =>
    let sign := if negative then "-" else ""
    if significand = 0 then sign ++ "0.0"
    else
      let d := shortestDigits significand exponent
      sign ++ layout.decimal d.1 d.2

end DecimalLayout

def realLayout : DecimalLayout := ⟨-4, 15, 2⟩

end RobotLang.Number
