import RobotLang.Model.ParamType
import RobotLang.Model.RosCall
import RobotLang.Number.Shortest
import RobotLang.Text.Quoted

namespace RobotLang

open Grammar (CallKind)
open Number (Binary64 realLayout)
open Text (joined)

inductive Literal
  | string (s : String)
  | boolean (b : Bool)
  | integer (n : Int)
  | real (x : Binary64)
  deriving DecidableEq, Repr

inductive Target
  | parameter (index : Int)
  | function (id : EntityId .function)
  | method (id : EntityId .method)
  | type (t : ParamType)
  deriving DecidableEq, Repr

inductive Expr
  | literal (value : Literal) (position : Option Position)
  | reference (name : String) (target : Option Target) (position : Option Position)
  | call (name : String) (args : List Expr) (target : Option Target) (position : Option Position)
  | ros (kind : CallKind) (topic : String) (args : List Expr) (position : Option Position)
  /-- An expression of no particular kind, which has no written form. -/
  | abstract
  deriving Repr

namespace Literal

/-- Only double quotes are escaped: reading a string drops a backslash before quotes alone. -/
def quotedText (s : String) : String :=
  "\"" ++ String.ofList (s.toList.flatMap fun c => if c = '"' then ['\\', '"'] else [c]) ++ "\""

def text : Literal → String
  | string s => quotedText s
  | boolean b => if b then "true" else "false"
  | integer n => toString n
  | real x => realLayout.text x

end Literal

namespace Expr

mutual

def text : Expr → String
  | literal value _ => value.text
  | reference name _ _ => name
  | call name args _ _ => name ++ "(" ++ joined ", " (texts args) ++ ")"
  | ros kind topic args _ =>
    kind.text ++ "(" ++ joined ", " (Literal.quotedText topic :: texts args) ++ ")"
  | abstract => ""

def texts : List Expr → List String
  | [] => []
  | e :: es => text e :: texts es

end

mutual

def isWritable : Expr → Bool
  | literal .. | reference .. => true
  | call _ args _ _ | ros _ _ args _ => areWritable args
  | abstract => false

def areWritable : List Expr → Bool
  | [] => true
  | e :: es => isWritable e && areWritable es

end

def text? (e : Expr) : Option String := if e.isWritable then some e.text else none

mutual

def bindings : Expr → List (String × Option Target)
  | literal .. | abstract => []
  | reference name target _ => [(name, target)]
  | call name args target _ => (name, target) :: bindingsOf args
  | ros _ _ args _ => bindingsOf args

def bindingsOf : List Expr → List (String × Option Target)
  | [] => []
  | e :: es => bindings e ++ bindingsOf es

end

mutual

def rosCalls : Expr → List RosCall
  | literal .. | reference .. | abstract => []
  | call _ args _ _ => rosCallsOf args
  | ros kind topic args _ => ⟨topic, kind⟩ :: rosCallsOf args

def rosCallsOf : List Expr → List RosCall
  | [] => []
  | e :: es => rosCalls e ++ rosCallsOf es

end

theorem texts_eq_map (es : List Expr) : texts es = es.map text := by
  induction es with
  | nil => rfl
  | cons e es ih => simp [texts, ih]

theorem rosCallsOf_eq_flatMap (es : List Expr) : rosCallsOf es = es.flatMap rosCalls := by
  induction es with
  | nil => rfl
  | cons e es ih => simp [rosCallsOf, ih]

end Expr

end RobotLang
