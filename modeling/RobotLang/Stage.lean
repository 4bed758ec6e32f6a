import RobotLang.Duplicates
import RobotLang.Resolve.Bodies
import RobotLang.Resolve.ParamTypes

namespace RobotLang

structure Note where
  logger : String
  level : Int
  text : String
  deriving DecidableEq, Repr

def Note.info (logger text : String) : Note := ⟨logger, 20, text⟩

def Note.debug (logger text : String) : Note := ⟨logger, 10, text⟩

inductive Stage
  | duplicates
  | parameters
  | expressions
  deriving DecidableEq, Repr

namespace Stage

/-- A stage answers with the model it leaves, also when it fails, and with the failure. -/
def run : Stage → Model → Model × Option Error
  | duplicates, m => (m, m.duplicateError)
  | parameters, m => m.resolveParameters
  | expressions, m => m.resolveExpressions

def notes : Stage → Model → List Note
  | duplicates, _ => [.info "rlc.check" "[CHECK] Duplicates"]
  | parameters, _ => [.info "rlc.resolve" "[RESOLVE] Parameters"]
  | expressions, m =>
    let entered := throughFailure (fun f => (Model.bindFunction (Scope.ofModel m) f).2) m.functions
    .info "rlc.resolve" "[RESOLVE] Expressions" ::
      entered.map fun f => .debug "rlc.resolve" s!"[RESOLVE] Function '{f.name}'"

def runAll : List Stage → Model → Model × Option Error
  | [], m => (m, none)
  | stage :: stages, m =>
    match stage.run m with
    | (m, some e) => (m, some e)
    | (m, none) => runAll stages m

def notesOfAll : List Stage → Model → List Note
  | [], _ => []
  | stage :: stages, m =>
    stage.notes m ++ match stage.run m with
      | (_, some _) => []
      | (m, none) => notesOfAll stages m

def resolution : List Stage := [parameters, expressions]

def check : List Stage := duplicates :: resolution

end Stage

end RobotLang
