import RobotLang.Number.Scan

namespace RobotLang.Number

open Text

def digitsWithUnderscores : List Char → Option (List Char)
  | [] => none
  | [d] => if isDigitChar d then some [d] else none
  | d :: '_' :: cs => if isDigitChar d then (digitsWithUnderscores cs).map (d :: ·) else none
  | d :: cs => if isDigitChar d then (digitsWithUnderscores cs).map (d :: ·) else none

/-- A blank beside a number; the separators of fields and records are none. -/
def isMargin (c : Char) : Bool := isBlankChar c && !(0x1c ≤ c.toNat && c.toNat ≤ 0x1f)

def integerOfText? (limit : Nat) (s : String) : Option Int :=
  let r := scanSign (trimmed isMargin s.toList)
  match digitsWithUnderscores r.2 with
  | some ds => if ds.length ≤ limit then some (signed r.1 (digitsValue ds)) else none
  | none => none

end RobotLang.Number
