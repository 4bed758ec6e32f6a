namespace RobotLang

structure Place where
  line : Nat
  column : Nat
  deriving DecidableEq, Repr

namespace Place

def start : Place := ⟨1, 1⟩

def next (p : Place) (c : Char) : Place :=
  if c = '\n' then ⟨p.line + 1, 1⟩ else ⟨p.line, p.column + 1⟩

def after (before : List Char) : Place := before.foldl next start

/-- The place from which `left` characters are left to the end of the text. -/
def fromEnd (text : List Char) (left : Nat) : Place := after (text.take (text.length - left))

theorem after_append (a b : List Char) : after (a ++ b) = b.foldl next (after a) := by
  simp [after, List.foldl_append]

end Place

structure Position where
  file : Option String
  line : Int
  column : Int
  deriving DecidableEq, Repr

namespace Position

def ofPlace (file : Option String) (p : Place) : Position := ⟨file, p.line, p.column⟩

def ofParts (file : Option String) (line column : Option Int) : Position :=
  ⟨file, line.getD 0, column.getD 0⟩

def text (p : Position) : String :=
  match p.file with
  | some file =>
      if file = "" then s!"{p.line}:{p.column}" else s!"{file}:{p.line}:{p.column}"
  | none => s!"{p.line}:{p.column}"

end Position

end RobotLang
