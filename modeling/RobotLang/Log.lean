import RobotLang.Error
import RobotLang.Stage
import RobotLang.Text.Template

namespace RobotLang

open Text (isBlankChar trimmed)

abbrev Environment := List (String × String)

/-- The loggers below the top one have no level of their own. A level of zero stands for that of the logger
above. -/
structure Log where
  level : Int
  propagates : Bool
  handlers : List Int
  deriving DecidableEq, Repr

namespace Log

def unconfigured : Log := ⟨0, true, []⟩

def warning : Int := 30

def critical : Int := 50

def rootLevel : Int := warning

def topLogger : String := "rlc"

def loggerName (name : Option String) : String :=
  match name with
  | none => topLogger
  | some name =>
    if name = topLogger then topLogger
    else topLogger ++ "." ++ String.ofList (name.toList.reverse.takeWhile (· != '.')).reverse

def upperChar (c : Char) : Char := if c = 'ı' then 'I' else if c = 'ſ' then 'S' else c.toUpper

def levelOfName? : String → Option Int
  | "CRITICAL" => some 50
  | "FATAL" => some 50
  | "ERROR" => some 40
  | "WARNING" => some 30
  | "WARN" => some 30
  | "INFO" => some 20
  | "DEBUG" => some 10
  | "NOTSET" => some 0
  | _ => none

def levelName (level : Int) : String :=
  if level = 30 then "warning" else if level = 40 then "error"
  else if level = 50 then "critical" else s!"level {level}"

def levelVariable : String := "RLC_LOG"

def levelFrom (env : Environment) : Except Error Int :=
  let value := (env.lookup levelVariable).getD ""
  let name := if value = "" then "info" else value
  match levelOfName? (String.ofList ((trimmed isBlankChar name.toList).map upperChar)) with
  | some level => .ok level
  | none => .error (.unknownLevel name)

/-- The first handler gets the level, or is made if there is none. -/
def setHandlers (level : Int) : List Int → List Int
  | [] => [level]
  | _ :: more => level :: more

def set (log : Log) (level : Int) : Log := ⟨level, false, setHandlers level log.handlers⟩

/-- Without verbosity the log is silent and the environment is not asked. -/
def levelFor (verbosity : Int) (env : Environment) : Except Error Int :=
  if verbosity ≤ 0 then .ok (critical + 1) else levelFrom env

/-- The log as it is afterwards, and the level set or what is wrong with the environment. -/
def configure (log : Log) (verbosity : Int) (env : Environment) : Log × Except Error Int :=
  match levelFor verbosity env with
  | .error e => (log, .error e)
  | .ok level => (log.set level, .ok level)

def ownLevel (log : Log) (logger : String) : Int := if logger = topLogger then log.level else 0

def effectiveLevel (log : Log) (logger : String) : Int :=
  if log.ownLevel logger ≠ 0 then log.ownLevel logger
  else if log.level ≠ 0 then log.level
  else rootLevel

def enabled (log : Log) (logger : String) (level : Int) : Bool := log.effectiveLevel logger ≤ level

def line (level : Int) (message : String) : String :=
  (if warning ≤ level then levelName level ++ ": " ++ message else message) ++ "\n"

def emit (log : Log) (logger : String) (level : Int) (message : String) : String :=
  if !log.enabled logger level then ""
  else if log.handlers = [] then if warning ≤ level then message ++ "\n" else ""
  else String.join ((log.handlers.filter (· ≤ level)).map fun _ => line level message)

def emitAll (log : Log) (notes : List Note) : String :=
  String.join (notes.map fun n => log.emit n.logger n.level n.text)

def filled (message : String) (arguments : List Text.Argument) : Option String :=
  if arguments.isEmpty then some message else Text.fill? message arguments

end Log

end RobotLang
