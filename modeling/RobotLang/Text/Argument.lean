import RobotLang.Number.Scan
import RobotLang.Number.Shortest
import RobotLang.Text.Quoted

namespace RobotLang.Text

open Number (Binary64 realLayout)

inductive Argument
  | nothing
  | text (s : String)
  | boolean (b : Bool)
  | integer (n : Int)
  | real (x : Binary64)
  | list (items : List Argument)
  | record (entries : List (String × Argument))
  deriving Repr

namespace Argument

mutual

/-- The form in which a value can be told from any other: texts stand in quotes. -/
def described : Argument → String
  | nothing => "None"
  | text s => quoted s
  | boolean b => if b then "True" else "False"
  | integer n => toString n
  | real x => realLayout.text x
  | list items => "[" ++ joined ", " (describedItems items) ++ "]"
  | record entries => "\x7b" ++ joined ", " (describedEntries entries) ++ "\x7d"

def describedItems : List Argument → List String
  | [] => []
  | a :: as => described a :: describedItems as

def describedEntries : List (String × Argument) → List String
  | [] => []
  | (name, a) :: es => (quoted name ++ ": " ++ described a) :: describedEntries es

end

def shown : Argument → String
  | text s => s
  | a => a.described

def integer? : Argument → Option Int
  | boolean b => some (if b then 1 else 0)
  | integer n => some n
  | _ => none

def whole? : Argument → Option Int
  | real x => x.truncated?
  | a => a.integer?

def real? : Argument → Option Binary64
  | real x => some x
  | a => a.integer?.bind Binary64.ofInt?

def character? : Argument → Option Char
  | text s =>
    match s.toList with
    | [c] => some c
    | _ => none
  | a => a.integer?.bind fun n =>
    if 0 ≤ n ∧ n.toNat.isValidChar then some (Char.ofNat n.toNat) else none

end Argument

end RobotLang.Text
