import RobotLang.Model.Basic

namespace RobotLang

structure Scope where
  values : List (String × Target)
  callables : List (String × Target)

namespace Scope

def entered {kind : Kind} (target : EntityId kind → Target) (entries : List (Entity kind))
    (scope : List (String × Target)) : List (String × Target) :=
  entries.foldl (fun scope e => (e.name, target e.id) :: scope) scope

/-- As values: skillsets, imported types, declared types and functions; as callables: methods and
functions. Of entries of one name the last one answers. -/
def ofModel (m : Model) : Scope :=
  let functions := m.functions.map (·.toEntity)
  { values :=
      entered .function functions
        (entered (fun id => .type (.declared id)) m.types
          (entered (fun id => .type (.imported id)) m.imported.types
            (entered (fun id => .type (.skillset id))
              (m.imported.skillsets.map (·.toEntity)) [])))
    callables := entered .function functions (entered .method (m.methods.map (·.toEntity)) []) }

def value? (s : Scope) (name : String) : Option Target := s.values.lookup name

def callable? (s : Scope) (name : String) : Option Target := s.callables.lookup name

end Scope

end RobotLang
