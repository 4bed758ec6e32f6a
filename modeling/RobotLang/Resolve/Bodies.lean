import RobotLang.Error
import RobotLang.Resolve.Scope
import RobotLang.Resolve.Until

namespace RobotLang

namespace Expr

variable (scope : Scope) (parameters : List Parameter)

def valueTarget (name : String) : Option Target :=
  match parameterIndex? parameters name with
  | some i => some (.parameter i)
  | none => scope.value? name

mutual

def bind : Expr → Expr × Option Error
  | literal value position => (literal value position, none)
  | reference name target position =>
    match valueTarget scope parameters name with
    | some target => (reference name (some target) position, none)
    | none => (reference name target position, some (.unresolved s!"identifier '{name}'" position))
  | call name args target position =>
    match scope.callable? name with
    | some target =>
      let r := bindAll args
      (call name r.1 (some target) position, r.2)
    | none => (call name args target position, some (.unresolved s!"function '{name}'" position))
  | ros kind topic args position =>
    let r := bindAll args
    (ros kind topic r.1 position, r.2)
  | abstract => (abstract, none)

def bindAll : List Expr → List Expr × Option Error
  | [] => ([], none)
  | e :: es =>
    match bind e with
    | (e, some error) => (e :: es, some error)
    | (e, none) =>
      let r := bindAll es
      (e :: r.1, r.2)

end

end Expr

namespace Model

def bindFunction (scope : Scope) (f : Function) : Function × Option Error :=
  let r := Expr.bindAll scope f.parameters f.body
  ({ f with body := r.1 }, r.2)

/-- All bodies are bound in the scope of the model as it is before. ROS calls are registered only if every
name is bound. -/
def resolveExpressions (m : Model) : Model × Option Error :=
  match mapUntil (bindFunction (Scope.ofModel m)) m.functions with
  | (functions, some e) => ({ m with functions }, some e)
  | (functions, none) =>
    let calls := m.functions.flatMap fun f => Expr.rosCallsOf f.body
    ({ m with functions, rosCalls := m.rosCalls.insertAll calls }, none)

end Model

end RobotLang
