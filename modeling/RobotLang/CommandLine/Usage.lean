import RobotLang.CommandLine.Options
import RobotLang.Error
import RobotLang.Log
import RobotLang.Number.IntegerText

namespace RobotLang.CommandLine

open Text (joined quoted)

def helpOption : OptionSpec := ⟨"--help", none, false⟩

inductive Command
  | validate
  | inspect
  | render
  | visualize
  deriving DecidableEq, Repr

namespace Command

def name : Command → String
  | validate => "validate"
  | inspect => "inspect"
  | render => "render"
  | visualize => "visualize"

def all : List Command := [inspect, render, validate, visualize]

def ofName? (s : String) : Option Command := all.find? (·.name == s)

def takesModel : Command → Bool
  | visualize => false
  | _ => true

def options : Command → List OptionSpec
  | validate | inspect => [helpOption]
  | render => [helpOption, ⟨"--no-resolve", none, false⟩, ⟨"--skillsets", none, false⟩]
  | visualize => [helpOption, ⟨"--out", none, true⟩]

def summary : Command → String
  | validate => "Check duplicates and resolve a model."
  | inspect => "Build a model and print a summary (robots, types, functions, calls)."
  | render => "Print the model back as robot-language source."
  | visualize => "Export the robot-language metamodel as a GraphViz .dot file."

def optionLines : Command → List String
  | validate | inspect => ["  --help  Show this message and exit."]
  | render =>
    ["  --skillsets   Also print the imported skillset model.",
      "  --no-resolve  Print the model as parsed, before checks and resolution.",
      "  --help        Show this message and exit."]
  | visualize =>
    ["  --out TEXT  Output directory (default: ./docs)",
      "  --help      Show this message and exit."]

end Command

def programOptions : List OptionSpec := [helpOption, ⟨"--verbose", some 'v', true⟩]

/-- The program as a whole, or one of its commands: `none` is the program. -/
abbrev Context := Option Command

def Context.path : Context → String
  | none => "cli"
  | some c => "cli " ++ c.name

def Context.usage : Context → String
  | none => "Usage: cli [OPTIONS] COMMAND [ARGS]..."
  | some c => "Usage: cli " ++ c.name ++ " [OPTIONS]" ++ if c.takesModel then " MODEL_PATH" else ""

def Context.help : Context → String
  | none =>
    joined "\n"
      [Context.usage none, "", "Options:",
        "  -v, --verbose INTEGER RANGE  0 silent, 1 log stages, 2 also print the model, 3",
        "                               also print the imported model.  [default: 1;",
        "                               0<=x<=3]",
        "  --help                       Show this message and exit.", "", "Commands:",
        "  inspect    Build a model and print a summary (robots, types, functions,...",
        "  render     " ++ Command.render.summary,
        "  validate   " ++ Command.validate.summary,
        "  visualize  " ++ Command.visualize.summary, ""]
  | some c =>
    joined "\n"
      ([Context.usage (some c), "", "  " ++ c.summary, "", "Options:"] ++ c.optionLines ++ [""])

inductive UsageFault
  | option (fault : OptionFault)
  | verbosity (value : String)
  | noCommand
  | unknownCommand (name : String)
  | environment (e : Error)
  | noModel
  | extra (arguments : List String)
  deriving DecidableEq, Repr

def UsageFault.message : UsageFault → String
  | option fault => fault.message
  | verbosity value =>
    "Invalid value for '--verbose' / '-v': " ++ quoted value ++ " is not a valid integer range."
  | noCommand => "Missing command."
  | unknownCommand name =>
    "No such command " ++ quoted name ++ "." ++
      suggestion (Text.similar (Command.all.map Command.name) name)
  | environment e => e.message
  | noModel => "Missing argument 'MODEL_PATH'."
  | extra arguments =>
    (if arguments.length = 1 then "Got unexpected extra argument ("
      else "Got unexpected extra arguments (") ++ joined " " arguments ++ ")"

def UsageFault.showsUsage : UsageFault → Bool
  | option (.needsValue _) | option (.takesNoValue _) => false
  | _ => true

def UsageFault.report (context : Context) (fault : UsageFault) : String :=
  (if fault.showsUsage then
      context.usage ++ "\nTry '" ++ context.path ++ " --help' for help.\n\n"
    else "") ++ "Error: " ++ fault.message ++ "\n"

def verbosityVariable : String := "RLC_VERBOSE"

def maxVerbosity : Int := 3

def defaultVerbosity : Int := 1

/-- The verbosity, from the option or else from the environment; values out of range are moved to
its nearer end. -/
def verbosityFrom (given : Given) (env : Environment) : Except UsageFault Int :=
  let fromEnv := (env.lookup verbosityVariable).filter (· != "")
  match (given.value? "--verbose") <|> fromEnv with
  | none => .ok defaultVerbosity
  | some value =>
    match Number.integerOfText? Error.numeralLimit value with
    | some n => .ok (max 0 (min maxVerbosity n))
    | none => .error (.verbosity value)

end RobotLang.CommandLine
