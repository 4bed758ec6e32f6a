import RobotLang.Grammar.Token
import RobotLang.Position
import RobotLang.Text.Quoted

namespace RobotLang.Grammar

variable {α : Type}

structure SyntaxError where
  place : Place
  expected : List Terminal
  context : String
  deriving DecidableEq, Repr

namespace SyntaxError

def excerpt (text : List Char) (left : Nat) : String :=
  let offset := text.length - left
  let flat := fun cs : List Char =>
    (cs.filter (· != '\r')).map fun c => if c = '\n' then ' ' else c
  String.ofList (flat ((text.take offset).drop (offset - 10)) ++ '*' ::
    flat ((text.drop offset).take 10))

def message (e : SyntaxError) : String :=
  "Expected " ++ Text.joined " or " (e.expected.map Terminal.label) ++ " => '" ++ e.context ++ "'"

def ofExpected (text : List Char) (e : Expected) : SyntaxError :=
  ⟨Place.fromEnd text e.left, e.terminals, excerpt text e.left⟩

end SyntaxError

namespace Parser

/-- A comment can stand before the first token of a text, and is looked for there by itself. -/
def leadingComment (text : List Char) : Expected := ⟨(skip text).length, [.comment]⟩

def read (p : Parser α) (text : List Char) : Except SyntaxError α :=
  let o := p text
  match o.value with
  | some (a, _) => .ok a
  | none => .error (.ofExpected text ((leadingComment text).join o.expected))

theorem read_eq_ok_iff {p : Parser α} {text : List Char} {a : α} :
    p.read text = .ok a ↔ ∃ rest, p.run text = some (a, rest) := by
  simp only [read, run]
  cases h : (p text).value with
  | none => simp
  | some r => simp [Prod.ext_iff]

end Parser

end RobotLang.Grammar
