import RobotLang.Model.Expr

namespace RobotLang

structure Entity (kind : Kind) where
  id : EntityId kind
  name : String
  position : Option Position
  deriving DecidableEq, Repr

abbrev Robot := Entity .robot

abbrev DeclaredType := Entity .type

abbrev ImportedType := Entity .importedType

structure Skillset extends Entity .skillset where
  skills : List String
  deriving DecidableEq, Repr

structure Parameter where
  name : String
  type : ParamType
  position : Option Position
  deriving DecidableEq, Repr

structure Function extends Entity .function where
  parameters : List Parameter
  body : List Expr
  deriving Repr

structure Method extends Entity .method where
  parameters : List Parameter
  deriving DecidableEq, Repr

def parameterIndex? (parameters : List Parameter) (name : String) : Option Nat :=
  parameters.findIdx? (·.name == name)

end RobotLang
