import RobotLang.Model.Basic

namespace RobotLang

open Number (realLayout)
open Text (joined quoted)

namespace Position

def describe (p : Position) : String :=
  let file := match p.file with
    | some f => quoted f
    | none => "None"
  s!"Position(file={file}, line={p.line}, column={p.column})"

end Position

def ParamType.describe : ParamType → String
  | undefined => "Undefined()"
  | boolean => "Boolean()"
  | unresolved name position =>
    let place := (position.map Position.describe).getD "None"
    s!"Unresolved(name={quoted name}, position={place})"
  | skillset id => s!"SkillsetType(id={id.describe})"
  | imported id => s!"ImportedType(id={id.describe})"
  | declared id => s!"LocalType(id={id.describe})"
  | abstract => "Type()"

def Literal.describe : Literal → String
  | string s => quoted s
  | boolean b => if b then "True" else "False"
  | integer n => toString n
  | real x => realLayout.text x

def Target.describe : Target → String
  | parameter index => s!"ParameterRef(index={index})"
  | function id => id.describe
  | method id => id.describe
  | type t => t.describe

def targetDescription (target : Option Target) : String :=
  (target.map Target.describe).getD "None"

def bracketed (texts : List String) : String := "[" ++ joined ", " texts ++ "]"

namespace Expr

mutual

def describe : Expr → String
  | literal value _ => s!"Literal({value.describe})"
  | reference name target _ => s!"Reference({quoted name}, target={targetDescription target})"
  | call name args target _ =>
    let list := bracketed (describeAll args)
    s!"FunctionCall({quoted name}, args={list}, target={targetDescription target})"
  | ros kind topic args _ =>
    s!"RosCallExpr({kind.text}, {quoted topic}, args={bracketed (describeAll args)})"
  | abstract => "Expr()"

def describeAll : List Expr → List String
  | [] => []
  | e :: es => describe e :: describeAll es

end

end Expr

def Entity.describe {kind : Kind} (e : Entity kind) : String :=
  s!"{kind.entityName}({quoted e.name}, id={e.id.describe})"

def Parameter.describe (p : Parameter) : String :=
  s!"Parameter({quoted p.name}, {p.type.describe})"

def CallRegistry.describe (r : CallRegistry) : String :=
  let texts := (r.calls.map RosCall.text).mergeSort fun s t => decide (s ≤ t)
  s!"CallRegistry({bracketed (texts.map quoted)})"

end RobotLang
