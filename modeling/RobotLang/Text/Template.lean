import RobotLang.Number.Rounded
import RobotLang.Text.Argument

namespace RobotLang.Text

open Number (Binary64 RealForm paddedDigits)

structure Field where
  flags : List Char
  width : Nat
  precision : Option Nat
  deriving DecidableEq, Repr

namespace Field

def isFlag (c : Char) : Bool := ['-', '+', ' ', '#', '0'].contains c

def has (f : Field) (flag : Char) : Bool := f.flags.contains flag

def laid (f : Field) (isNumber : Bool) (head body : List Char) : List Char :=
  let missing := f.width - (head.length + body.length)
  if f.has '-' then head ++ body ++ List.replicate missing ' '
  else if isNumber && f.has '0' then head ++ List.replicate missing '0' ++ body
  else List.replicate missing ' ' ++ head ++ body

def textual (f : Field) (cs : List Char) : List Char :=
  f.laid false [] (match f.precision with
    | some n => cs.take n
    | none => cs)

def sign (f : Field) (negative : Bool) : List Char :=
  if negative then ['-'] else if f.has '+' then ['+'] else if f.has ' ' then [' '] else []

def integral (f : Field) (base : Nat) (mark : List Char) (n : Int) : List Char :=
  f.laid true (f.sign (n < 0) ++ if f.has '#' then mark else [])
    (paddedDigits base (f.precision.getD 1) n.natAbs)

def real (f : Field) (form : RealForm) (x : Binary64) : List Char :=
  f.laid true (f.sign x.isNegative) (form.text (f.has '#') (f.precision.getD 6) x)

def realForm? : Char → Option RealForm
  | 'f' | 'F' => some .fixed
  | 'e' | 'E' => some .scientific
  | 'g' | 'G' => some .general
  | _ => none

def show? (f : Field) (conversion : Char) (a : Argument) : Option (List Char) :=
  match conversion with
  | 's' => some (f.textual a.shown.toList)
  | 'r' => some (f.textual a.described.toList)
  | 'a' => some (f.textual (a.described.toList.flatMap escapeWide))
  | 'c' => a.character?.map fun c => f.laid false [] [c]
  | 'd' | 'i' | 'u' => a.whole?.map (f.integral 10 [])
  | 'o' => a.integer?.map (f.integral 8 ['0', 'o'])
  | 'x' | 'X' => a.integer?.map (f.integral 16 ['0', 'x'])
  | c => (realForm? c).bind fun form => a.real?.map (f.real form)

def write? (f : Field) (conversion : Char) (a : Argument) : Option (List Char) :=
  (f.show? conversion a).map fun cs => if conversion.isUpper then cs.map Char.toUpper else cs

end Field

structure Supply where
  entries : List (String × Argument)
  left : List Argument
  deriving Repr

namespace Supply

/-- The entries of a record can be named if there is no other argument. -/
def ofArguments : List Argument → Supply
  | [.record entries] => ⟨entries, [.record entries]⟩
  | args => ⟨[], args⟩

/-- All arguments have to be shown. A record whose entries can be named need not be. -/
def mayEnd (s : Supply) : Bool := s.left.isEmpty || !s.entries.isEmpty

def next? (s : Supply) : Option (Argument × Supply) :=
  match s.left with
  | a :: left => some (a, { s with left })
  | [] => none

def named? (s : Supply) (name : String) : Option Supply :=
  (s.entries.lookup name).map fun a => { s with left := [a] }

end Supply

def scanName : Nat → List Char → Option (List Char × List Char)
  | _, [] => none
  | depth, c :: cs =>
    if c = ')' ∧ depth = 0 then some ([], cs)
    else
      let depth := if c = '(' then depth + 1 else if c = ')' then depth - 1 else depth
      (scanName depth cs).map fun r => (c :: r.1, r.2)

def scanSupply (cs : List Char) (s : Supply) : Option (List Char × Supply) :=
  match cs with
  | '(' :: cs =>
    match scanName 0 cs with
    | some (name, cs) => (s.named? (String.ofList name)).map fun s => (cs, s)
    | none => none
  | cs => some (cs, s)

def scanCount (cs : List Char) (s : Supply) : Option (Int × List Char × Supply) :=
  match cs with
  | '*' :: cs =>
    match s.next? with
    | some (a, s) => a.integer?.map fun n => (n, cs, s)
    | none => none
  | cs => some (Number.digitsValue (cs.takeWhile Char.isDigit), cs.dropWhile Char.isDigit, s)

def Field.ofCounts (flags : List Char) (width : Int) (precision : Option Int) : Field :=
  ⟨if width < 0 then '-' :: flags else flags, width.natAbs, precision.map Int.toNat⟩

/-- A field behind its percent sign, up to the conversion; a size before it means nothing. -/
def scanField (cs : List Char) (s : Supply) : Option (Field × List Char × Supply) := do
  let (cs, s) ← scanSupply cs s
  let flags := cs.takeWhile Field.isFlag
  let (width, cs, s) ← scanCount (cs.dropWhile Field.isFlag) s
  let (precision, cs, s) ← match cs with
    | '.' :: cs => (scanCount cs s).map fun r => (some r.1, r.2)
    | cs => some (none, cs, s)
  let cs := match cs with
    | c :: rest => if ['h', 'l', 'L'].contains c then rest else cs
    | [] => []
  return (.ofCounts flags width precision, cs, s)

def fillUpTo : Nat → List Char → Supply → Option (List Char)
  | _, [], s => if s.mayEnd then some [] else none
  | 0, _ :: _, _ => none
  | limit + 1, '%' :: '%' :: cs, s => (fillUpTo limit cs s).map ('%' :: ·)
  | limit + 1, '%' :: cs, s => do
    let (f, cs, s) ← scanField cs s
    let (a, s) ← s.next?
    match cs with
    | [] => none
    | conversion :: cs =>
      let shown ← f.write? conversion a
      let rest ← fillUpTo limit cs s
      return shown ++ rest
  | limit + 1, c :: cs, s => (fillUpTo limit cs s).map (c :: ·)

def fill? (template : String) (args : List Argument) : Option String :=
  (fillUpTo template.toList.length template.toList (.ofArguments args)).map String.ofList

end RobotLang.Text
