import RobotLang.Model.Imported

namespace RobotLang

structure Model where
  includes : List String
  robots : List Robot
  types : List DeclaredType
  functions : List Function
  methods : List Method
  rosCalls : CallRegistry
  imported : Imported
  deriving Repr

namespace Model

def besides (imported : Imported) : Model := ⟨[], [], [], [], [], .empty, imported⟩

def empty : Model := besides .empty

def addInclude (m : Model) (file : String) : Model := { m with includes := m.includes ++ [file] }

def addRobot (m : Model) (name : String) (position : Option Position) : Model :=
  { m with robots := m.robots ++ [⟨.next m.robots, name, position⟩] }

def addType (m : Model) (name : String) (position : Option Position) : Model :=
  { m with types := m.types ++ [⟨.next m.types, name, position⟩] }

def addFunction (m : Model) (name : String) (parameters : List Parameter) (body : List Expr)
    (position : Option Position) : Model :=
  { m with
    functions := m.functions ++ [⟨⟨.next m.functions, name, position⟩, parameters, body⟩] }

def addMethod (m : Model) (name : String) (parameters : List Parameter)
    (position : Option Position) : Model :=
  { m with methods := m.methods ++ [⟨⟨.next m.methods, name, position⟩, parameters⟩] }

def addRosCall (m : Model) (call : RosCall) : Model :=
  { m with rosCalls := m.rosCalls.insert call }

end Model

inductive Declared
  | robot (r : Robot)
  | type (t : DeclaredType)
  | function (f : Function)
  | method (m : Method)
  deriving Repr

/-- The entity that an identifier leads to; `none` stands for an identifier of an imported entry,
by which a model is not asked. -/
def Model.get? (m : Model) : {kind : Kind} → EntityId kind → Option (Option Declared)
  | .robot, id => some ((id.find? m.robots).map .robot)
  | .type, id => some ((id.find? m.types).map .type)
  | .function, id => some ((id.find? m.functions).map .function)
  | .method, id => some ((id.find? m.methods).map .method)
  | .skillset, _ | .importedType, _ => none

end RobotLang
