import RobotLang.Grammar.Token

namespace RobotLang.Grammar

open Number

inductive CallKind
  | publish
  | subscribe
  | service
  deriving DecidableEq, Repr

namespace CallKind

def text : CallKind → String
  | publish => "publish"
  | subscribe => "subscribe"
  | service => "service"

def ofText? : String → Option CallKind
  | "publish" => some publish
  | "subscribe" => some subscribe
  | "service" => some service
  | _ => none

theorem ofText?_text (k : CallKind) : ofText? k.text = some k := by cases k <;> rfl

end CallKind

inductive LiteralTree
  | string (s : String)
  | real (x : Binary64)
  | integer (n : Numeral)
  | boolean (b : Bool)
  deriving DecidableEq, Repr

/-- A mark is the number of characters left from the first token of a construct to the end of the text, so it
does not depend on what stands before. -/
inductive ExprTree
  | ros (mark : Nat) (kind : CallKind) (topic : String) (args : List ExprTree)
  | call (mark : Nat) (name : String) (args : List ExprTree)
  | literal (mark : Nat) (value : LiteralTree)
  | name (mark : Nat) (name : String)
  deriving Repr

mutual

def ExprTree.decEq : (e e' : ExprTree) → Decidable (e = e')
  | .ros _ _ _ args, .ros _ _ _ args' =>
    have := ExprTree.decEqAll args args'
    decidable_of_decidable_of_iff (iff_of_eq (ExprTree.ros.injEq ..).symm)
  | .call _ _ args, .call _ _ args' =>
    have := ExprTree.decEqAll args args'
    decidable_of_decidable_of_iff (iff_of_eq (ExprTree.call.injEq ..).symm)
  | .literal .., .literal .. => decidable_of_decidable_of_iff (iff_of_eq (ExprTree.literal.injEq ..).symm)
  | .name .., .name .. => decidable_of_decidable_of_iff (iff_of_eq (ExprTree.name.injEq ..).symm)
  | .ros .., .call .. | .ros .., .literal .. | .ros .., .name .. => isFalse nofun
  | .call .., .ros .. | .call .., .literal .. | .call .., .name .. => isFalse nofun
  | .literal .., .ros .. | .literal .., .call .. | .literal .., .name .. => isFalse nofun
  | .name .., .ros .. | .name .., .call .. | .name .., .literal .. => isFalse nofun

def ExprTree.decEqAll : (es es' : List ExprTree) → Decidable (es = es')
  | [], [] => isTrue rfl
  | e :: es, e' :: es' =>
    have := ExprTree.decEq e e'
    have := ExprTree.decEqAll es es'
    decidable_of_decidable_of_iff (iff_of_eq (List.cons.injEq ..).symm)
  | [], _ :: _ | _ :: _, [] => isFalse nofun

end

instance : DecidableEq ExprTree := ExprTree.decEq

structure ParameterTree where
  mark : Nat
  name : String
  typeMark : Nat
  typeName : String
  deriving DecidableEq, Repr

inductive Declaration
  | includes (file : String)
  | robot (mark : Nat) (name : String)
  | type (mark : Nat) (name : String)
  | function (mark : Nat) (name : String) (parameters : List ParameterTree) (body : List ExprTree)
  | method (mark : Nat) (name : String) (parameters : List ParameterTree)
  deriving DecidableEq, Repr

inductive SkillsetEntry
  | type (mark : Nat) (name : String)
  | skillset (mark : Nat) (name : String) (skills : List String)
  deriving DecidableEq, Repr

end RobotLang.Grammar
