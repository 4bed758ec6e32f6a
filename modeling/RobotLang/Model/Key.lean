import RobotLang.Error
import RobotLang.Model.Basic

namespace RobotLang

inductive Key
  | id (kind : Kind) (id : EntityId kind)
  | number (n : Int)
  | text (s : String)
  | none
  deriving DecidableEq, Repr

namespace Key

def describe : Key → String
  | id _ i => i.describe
  | number n => toString n
  | text s => Text.quoted s
  | none => "None"

def className : Key → String
  | id kind _ => kind.idName
  | number _ => "int"
  | text _ => "str"
  | none => "NoneType"

def less (a b : Key) : Except Error Bool :=
  match a, b with
  | id k i, id l j =>
    if k = l then .ok (i.index < j.index) else .error (.incomparable k.idName l.idName)
  | number m, number n => .ok (m < n)
  | text s, text t => .ok (s < t)
  | a, b => .error (.incomparable a.className b.className)

end Key

namespace Model

/-- The entity that a key leads to. Imported entries are not asked for by key. -/
def lookup (m : Model) (key : Key) : Except Error (Option Declared) :=
  match key with
  | .id _ id =>
    match m.get? id with
    | some found => .ok found
    | none => .error (.notAnEntity key.describe)
  | _ => .error (.notAnEntity key.describe)

/-- Where an index of a list of `n` entries leads; negative ones count from the end. -/
def offset? (n : Nat) (index : Int) : Option Nat :=
  if 0 ≤ index then if index < n then some index.toNat else none
  else if 0 ≤ index + n then some (index + n).toNat else none

def parameterOffset (n : Nat) (index : Int) : Except Error Nat :=
  if index < Int64.minValue.toInt ∨ Int64.maxValue.toInt < index then .error .indexTooWide
  else match offset? n index with
    | some i => .ok i
    | none => .error .parameterIndex

def retyped (ps : List Parameter) (i : Nat) (type : ParamType) : List Parameter :=
  ps.modify i fun p => { p with type }

def setFunction (m : Model) (id : EntityId .function) (f : Function) : Model :=
  { m with functions := m.functions.set id.index.toNat f }

def setMethod (m : Model) (id : EntityId .method) (f : Method) : Model :=
  { m with methods := m.methods.set id.index.toNat f }

def editParameters (m : Model) (owner : Key)
    (edit : List Parameter → Except Error (List Parameter)) : Except Error Model :=
  match owner with
  | .id .function id =>
    match id.find? m.functions with
    | none => .error (.noSuchOwner id.describe)
    | some f =>
      match edit f.parameters with
      | .error e => .error e
      | .ok parameters => .ok (m.setFunction id { f with parameters })
  | .id .method id =>
    match id.find? m.methods with
    | none => .error (.noSuchOwner id.describe)
    | some f =>
      match edit f.parameters with
      | .error e => .error e
      | .ok parameters => .ok (m.setMethod id { f with parameters })
  | _ => .error (.notAnOwner owner.describe)

def setParameterType (m : Model) (owner : Key) (index : Int) (type : ParamType) :
    Except Error Model :=
  m.editParameters owner fun ps => (parameterOffset ps.length index).map fun i => retyped ps i type

def retypeAt (m : Model) (owner : Key) (i : Nat) (type : ParamType) : Except Error Model :=
  m.editParameters owner fun ps => .ok (retyped ps i type)

def appendParameter (m : Model) (owner : Key) (p : Parameter) : Except Error Model :=
  match m.lookup owner with
  | .error e => .error e
  | .ok none => .error (.missingPart "NoneType" "parameters")
  | .ok (some (.robot _)) => .error (.missingPart "Robot" "parameters")
  | .ok (some (.type _)) => .error (.missingPart "RlcType" "parameters")
  | .ok (some (.function f)) => .ok (m.setFunction f.id { f with parameters := f.parameters ++ [p] })
  | .ok (some (.method f)) => .ok (m.setMethod f.id { f with parameters := f.parameters ++ [p] })

def parameterIndex (m : Model) (id : EntityId .function) (name : String) :
    Except Error (Option Nat) :=
  match id.find? m.functions with
  | none => .error (.missingPart "NoneType" "parameter_index")
  | some f => .ok (parameterIndex? f.parameters name)

end Model

end RobotLang
