import RobotLang.Model.EntityId

namespace RobotLang

inductive ParamType
  | undefined
  | boolean
  | unresolved (name : String) (position : Option Position)
  | skillset (id : EntityId .skillset)
  | imported (id : EntityId .importedType)
  | declared (id : EntityId .type)
  | abstract
  deriving DecidableEq, Repr

namespace ParamType

def isResolved : ParamType → Bool
  | undefined | unresolved .. => false
  | _ => true

def isWritable : ParamType → Bool
  | abstract => false
  | _ => true

def kindName : ParamType → String
  | undefined => "Undefined"
  | boolean => "Boolean"
  | unresolved .. => "Unresolved"
  | skillset _ => "SkillsetType"
  | imported _ => "ImportedType"
  | declared _ => "LocalType"
  | abstract => "Type"

/-- Equality of types by what they say; a type of no particular kind equals no type. -/
def same (s t : ParamType) : Bool := s.isWritable && s == t

end ParamType

end RobotLang
