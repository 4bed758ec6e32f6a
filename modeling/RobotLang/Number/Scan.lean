import RobotLang.Number.Binary64
import RobotLang.Text.CharClass

namespace RobotLang.Number

open Text

def scanSign : List Char → Bool × List Char
  | '-' :: cs => (true, cs)
  | '+' :: cs => (false, cs)
  | cs => (false, cs)

def digitsValue (ds : List Char) : Nat := ds.foldl (fun n d => 10 * n + digitValue d) 0

def signed (negative : Bool) (n : Nat) : Int := if negative then -n else n

def scanExponent : List Char → Option (Int × List Char)
  | [] => none
  | c :: cs =>
    let s := scanSign cs
    let digits := s.2.takeWhile isDigitChar
    if (c = 'e' ∨ c = 'E') ∧ digits ≠ [] then
      some (signed s.1 (digitsValue digits), s.2.dropWhile isDigitChar)
    else none

/-- The longest decimal fraction: it has a point, an exponent or both, and a digit beside the
point. -/
def scanDecimal (cs : List Char) : Option (Binary64 × List Char) :=
  let s := scanSign cs
  let whole := s.2.takeWhile isDigitChar
  match s.2.dropWhile isDigitChar with
  | '.' :: rest =>
    let part := rest.takeWhile isDigitChar
    let rest := rest.dropWhile isDigitChar
    if whole = [] ∧ part = [] then none
    else
      let e := (scanExponent rest).getD (0, rest)
      some (.ofDecimal s.1 (digitsValue (whole ++ part)) (e.1 - part.length), e.2)
  | rest =>
    if whole = [] then none
    else (scanExponent rest).map fun e => (.ofDecimal s.1 (digitsValue whole) e.1, e.2)

structure Numeral where
  negative : Bool
  digits : List Char
  deriving DecidableEq, Repr

def Numeral.value (n : Numeral) : Int := signed n.negative (digitsValue n.digits)

def scanInteger (cs : List Char) : Option (Numeral × List Char) :=
  let s := scanSign cs
  let digits := s.2.takeWhile Char.isDigit
  if digits = [] then none else some (⟨s.1, digits⟩, s.2.dropWhile Char.isDigit)

def realOfText? (s : String) : Option Binary64 :=
  match s with
  | "nan" => some .nan
  | "inf" => some (.infinite false)
  | "-inf" => some (.infinite true)
  | _ =>
    match scanDecimal s.toList, scanInteger s.toList with
    | some (x, []), _ => some x
    | _, some (n, []) => some (.ofDecimal n.negative (digitsValue n.digits) 0)
    | _, _ => none

end RobotLang.Number
