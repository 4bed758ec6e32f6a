import RobotLang.Model.Basic

namespace RobotLang.Model

open Text (joined)

variable (m : Model)

def typeText : ParamType → String
  | .undefined => "undef"
  | .boolean => "bool"
  | .unresolved name _ => name ++ "?"
  | .skillset id =>
    match id.find? m.imported.skillsets with
    | some s => s.name
    | none => s!"<skillset #{id.index}>"
  | .imported id =>
    match id.find? m.imported.types with
    | some t => t.name
    | none => s!"<type #{id.index}>"
  | .declared id =>
    match id.find? m.types with
    | some t => t.name
    | none => s!"<local type #{id.index}>"
  | .abstract => ""

def typeText? (t : ParamType) : Option String :=
  if t.isWritable then some (m.typeText t) else none

def parameterText (p : Parameter) : String := p.name ++ ": " ++ m.typeText p.type

def signatureText (name : String) (parameters : List Parameter) : String :=
  name ++ "(" ++ joined ", " (parameters.map m.parameterText) ++ ")"

def bodyLine (e : Expr) : String := "    " ++ e.text ++ ";"

def functionText (f : Function) : String :=
  let header := "fn " ++ m.signatureText f.name f.parameters
  if f.body = [] then header ++ " \x7b\x7d"
  else joined "\n" ((header ++ " \x7b") :: f.body.map bodyLine ++ ["\x7d"])

def methodText (f : Method) : String := "method " ++ m.signatureText f.name f.parameters

def includeLine (file : String) : String := "include \"" ++ file ++ "\""

def text : String :=
  joined "\n" (m.includes.map includeLine ++ m.robots.map ("robot " ++ ·.name) ++
    m.types.map ("type " ++ ·.name) ++ "" :: m.functions.map m.functionText ++
    m.methods.map m.methodText) ++ "\n"

def parametersWritable (ps : List Parameter) : Bool := ps.all (·.type.isWritable)

/-- Nothing in the model is abstract, so that it has a written form. -/
def isWritable : Bool :=
  m.functions.all (fun f => parametersWritable f.parameters && Expr.areWritable f.body) &&
    m.methods.all fun f => parametersWritable f.parameters

def text? : Option String := if m.isWritable then some m.text else none

end RobotLang.Model
