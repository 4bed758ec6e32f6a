import RobotLang.Number.Binary64
import RobotLang.Number.Digits

namespace RobotLang.Number

def leadingPower (num den : Nat) : Int :=
  let e : Int := (Nat.toDigits 10 num).length - (Nat.toDigits 10 den).length
  let scaled := dividedByPower 10 e num den
  if scaled.2 ≤ scaled.1 then e else e - 1

/-- `num / den` rounded to `more` digits behind its first one: the digits, as a number, and the
power of ten of the first. -/
def leadingDigits (more num den : Nat) : Nat × Int :=
  if num = 0 then (0, 0)
  else
    let power := leadingPower num den
    let scaled := dividedByPower 10 (power - more) num den
    let n := roundedQuotient scaled.1 scaled.2
    if n = Nat.pow 10 (more + 1) then (Nat.pow 10 more, power + 1) else (n, power)

def pointed (keepPoint : Bool) (places n : Nat) : List Char :=
  let digits := paddedDigits 10 (places + 1) n
  let whole := digits.length - places
  digits.take whole ++ if places = 0 ∧ !keepPoint then [] else '.' :: digits.drop whole

def fewestPlaces : Nat → Nat → Nat × Nat
  | 0, n => (0, n)
  | places + 1, n => if n % 10 = 0 then fewestPlaces places (n / 10) else (places + 1, n)

inductive RealForm
  | fixed
  | scientific
  | general
  deriving DecidableEq, Repr

namespace RealForm

def fixedText (keepPoint : Bool) (precision num den : Nat) : List Char :=
  pointed keepPoint precision (roundedQuotient (num * Nat.pow 10 precision) den)

def scientificText (keepPoint : Bool) (precision num den : Nat) : List Char :=
  let r := leadingDigits precision num den
  pointed keepPoint precision r.1 ++ exponentText 2 r.2

/-- Numbers from a ten thousandth are written without an exponent while their digits reach down to
the point. The precision counts all digits; zeros at the end of them are written only if `full`. -/
def generalText (full : Bool) (precision num den : Nat) : List Char :=
  let r := leadingDigits (precision - 1) num den
  let written := fun places : Nat =>
    let d := if full then (places, r.1) else fewestPlaces places r.1
    pointed full d.1 d.2
  if r.2 < -4 ∨ (precision - 1 : Nat) < r.2 then written (precision - 1) ++ exponentText 2 r.2
  else written ((precision - 1 : Nat) - r.2).toNat

def text (form : RealForm) (full : Bool) (precision : Nat) : Binary64 → List Char
  | .nan => ['n', 'a', 'n']
  | .infinite _ => ['i', 'n', 'f']
  | .finite _ significand exponent =>
    let ratio := dividedByPower 2 (-exponent) significand 1
    match form with
    | fixed => fixedText full precision ratio.1 ratio.2
    | scientific => scientificText full precision ratio.1 ratio.2
    | general => generalText full precision ratio.1 ratio.2

end RealForm

end RobotLang.Number
