namespace RobotLang.Number

/-- A finite value is `significand * 2 ^ exponent` with its sign; zero has a sign as well. -/
inductive Binary64
  | finite (negative : Bool) (significand : Nat) (exponent : Int)
  | infinite (negative : Bool)
  | nan
  deriving DecidableEq, Repr

def roundedQuotient (num den : Nat) : Nat :=
  let q := num / den
  let r := num % den
  if 2 * r < den then q else if den < 2 * r then q + 1 else q + q % 2

def dividedByPower (base : Nat) (e : Int) (num den : Nat) : Nat × Nat :=
  if e < 0 then (num * base.pow e.natAbs, den) else (num, den * base.pow e.natAbs)

namespace Binary64

def minExponent : Int := -1074

def maxExponent : Int := 971

def hidden : Nat := Nat.pow 2 52

def exponentOf (num den : Nat) : Int :=
  let e := max ((num.log2 : Int) - den.log2 - 53) minExponent
  let scaled := dividedByPower 2 e num den
  if 2 * hidden ≤ scaled.1 / scaled.2 then e + 1 else e

/-- The value nearest to `num / den`; ties go to the even significand. -/
def ofRatio (negative : Bool) (num den : Nat) : Binary64 :=
  let e := exponentOf num den
  let scaled := dividedByPower 2 e num den
  let m := roundedQuotient scaled.1 scaled.2
  let carried := m = 2 * hidden
  let e := if carried then e + 1 else e
  if maxExponent < e then infinite negative else finite negative (if carried then hidden else m) e

def isNegative : Binary64 → Bool
  | finite negative _ _ => negative
  | infinite negative => negative
  | nan => false

def truncated? : Binary64 → Option Int
  | finite negative significand exponent =>
    let ratio := dividedByPower 2 (-exponent) significand 1
    let n := ratio.1 / ratio.2
    some (if negative then -n else n)
  | _ => none

def zero (negative : Bool) : Binary64 := finite negative 0 minExponent

/-- The value nearest to `mantissa * 10 ^ exponent`. Far outside the range the powers are not
computed. -/
def ofDecimal (negative : Bool) (mantissa : Nat) (exponent : Int) : Binary64 :=
  let size : Int := (Nat.toDigits 10 mantissa).length + exponent
  if mantissa = 0 ∨ size < -330 then zero negative
  else if 310 < size then infinite negative
  else
    let ratio := dividedByPower 10 (-exponent) mantissa 1
    ofRatio negative ratio.1 ratio.2

def ofInt? (n : Int) : Option Binary64 :=
  match ofDecimal (n < 0) n.natAbs 0 with
  | finite negative significand exponent => some (finite negative significand exponent)
  | _ => none

end Binary64

end RobotLang.Number
