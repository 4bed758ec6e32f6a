import RobotLang.Model.Entity

namespace RobotLang

structure Imported where
  types : List ImportedType
  skillsets : List Skillset
  deriving DecidableEq, Repr

namespace Imported

open Text (joined)

def empty : Imported := ⟨[], []⟩

def addType (m : Imported) (name : String) (position : Option Position) : Imported :=
  { m with types := m.types ++ [⟨.next m.types, name, position⟩] }

def addSkillset (m : Imported) (name : String) (skills : List String)
    (position : Option Position) : Imported :=
  { m with skillsets := m.skillsets ++ [⟨⟨.next m.skillsets, name, position⟩, skills⟩] }

def typeLine (t : ImportedType) : String := "type " ++ t.name

def skillsetLine (s : Skillset) : String :=
  if s.skills = [] then "skillset " ++ s.name
  else "skillset " ++ s.name ++ " \x7b " ++ joined " " (s.skills.map ("skill " ++ ·)) ++ " \x7d"

def text (m : Imported) : String :=
  let lines := m.types.map typeLine ++ m.skillsets.map skillsetLine
  if lines = [] then "" else joined "\n" lines ++ "\n"

end Imported

end RobotLang
