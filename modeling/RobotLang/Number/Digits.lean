namespace RobotLang.Number

def paddedDigits (base width n : Nat) : List Char :=
  let digits := Nat.toDigits base n
  List.replicate (width - digits.length) '0' ++ digits

def exponentText (width : Nat) (power : Int) : List Char :=
  'e' :: (if power < 0 then '-' else '+') :: paddedDigits 10 width power.natAbs

end RobotLang.Number
