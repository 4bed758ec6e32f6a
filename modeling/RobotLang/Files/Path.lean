import RobotLang.Text.Quoted

namespace RobotLang.Files

structure Path where
  names : List String
  deriving DecidableEq, Repr

namespace Path

def root : Path := ⟨[]⟩

def text (p : Path) : String := "/" ++ Text.joined "/" p.names

def name (p : Path) : String := p.names.getLast?.getD ""

def parent (p : Path) : Path := ⟨p.names.dropLast⟩

def ancestors (p : Path) : List Path := (List.range p.names.length).map fun n => ⟨p.names.take n⟩

def maxNameBytes : Nat := 255

def maxTextBytes : Nat := 4095

def nameIsLong (name : String) : Bool := maxNameBytes < name.utf8ByteSize

def textIsLong (text : String) : Bool := maxTextBytes < text.utf8ByteSize

def isImpossible (name : List Char) : Bool := name.contains '\x00'

def isUnnameable (p : Path) : Bool := p.names.any fun name => isImpossible name.toList

def pieces : List Char → List Char × List (List Char)
  | [] => ([], [])
  | c :: cs =>
    let ps := pieces cs
    if c = '/' then ([], ps.1 :: ps.2) else (c :: ps.1, ps.2)

def possiblePieces : List (List Char) → List (List Char)
  | [] => []
  | p :: ps => if isImpossible p then [p] else p :: possiblePieces ps

/-- One piece further. The names stand from the last one up. -/
def step (names : List String) (piece : List Char) : List String :=
  if piece = [] ∨ piece = ['.'] then names
  else if piece = ['.', '.'] then names.tail
  else String.ofList piece :: names

def isAbsolute (text : String) : Bool := text.toList.head? = some '/'

def ofPieces (base : Path) (isAbsolute : Bool) (pieces : List (List Char)) : Path :=
  ⟨(pieces.foldl step (if isAbsolute then [] else base.names.reverse)).reverse⟩

def piecesOf (text : String) : List (List Char) :=
  let ps := pieces text.toList
  ps.1 :: ps.2

def resolve (base : Path) (text : String) : Path :=
  ofPieces base (isAbsolute text) (possiblePieces (piecesOf text))

/-- The path that a text spells, where nothing is looked up on the way. -/
def spell (base : Path) (text : String) : Path := ofPieces base (isAbsolute text) (piecesOf text)

/-- The text of a path that `given` spells: exactly two slashes at the head are kept. -/
def spelledText (p : Path) (given : String) : String :=
  match given.toList.takeWhile (· = '/') with
  | [_, _] => "/" ++ p.text
  | _ => p.text

def below (base text : String) : String :=
  if base = "" ∨ isAbsolute text then text else base ++ "/" ++ text

end Path

end RobotLang.Files
