import RobotLang.Build
import RobotLang.CommandLine.Usage
import RobotLang.Model.Summary
import RobotLang.Text.Terminal

namespace RobotLang.CommandLine

open Files Text

structure World where
  files : Tree
  env : Environment
  stamp : String

structure Outcome where
  exitCode : Nat
  stdout : String
  stderr : String
  newFiles : List Path
  deriving DecidableEq, Repr

/-- What a command has printed when it ends, the failure that ended it, and the files it made. -/
structure Report where
  printed : String
  failure : Option Error
  newFiles : List Path

namespace Report

def ok (printed : String) : Report := ⟨printed, none, []⟩

def failed (printed : String) (e : Error) : Report := ⟨printed, some e, []⟩

def followedBy (printed : String) (text? : Option String) : Report :=
  match text? with
  | some text => ok (printed ++ text)
  | none => failed printed .notWritable

end Report

def separatorLine : String := String.ofList (List.replicate 50 '-') ++ "\n"

def reportLine (stamp label text : String) : String :=
  withoutControls (stamp ++ " " ++ label ++ text) ++ "\n"

def successLine (stamp : String) : String := reportLine stamp "Model validation success!" ""

def written? (m : Model) : Option String := m.text?.map withoutSequences

def writtenImports (m : Model) : String := withoutSequences m.imported.text ++ "\n"

def dumped (verbosity : Int) (printed : String) (m : Model) : Report :=
  let printed :=
    if 3 ≤ verbosity then printed ++ separatorLine ++ writtenImports m else printed
  if 2 ≤ verbosity then Report.followedBy (printed ++ separatorLine) (written? m) else .ok printed

def validate (w : World) (verbosity : Int) (path : String) : Report :=
  match (Model.buildFile w.files path .empty).1 with
  | .error e => .failed "" e
  | .ok m => dumped verbosity (successLine w.stamp) m

def inspect (w : World) (path : String) : Report :=
  match (Model.buildFile w.files path .empty).1 with
  | .error e => .failed "" e
  | .ok m => .followedBy (successLine w.stamp) m.summary?

def render (w : World) (path : String) (skillsets resolved : Bool) : Report :=
  match (if resolved then Model.buildFile w.files path .empty
      else Model.parseFile w.files path .empty).1 with
  | .error e => .failed "" e
  | .ok m =>
    .followedBy (if skillsets then writtenImports m ++ separatorLine else "") (written? m)

def diagramName : String := "rlc_metamodel.dot"

/-- The paths that a call looks at for an argument: what it names, a diagram there, and the
directories above. -/
def touchedPaths (home : Path) (arg : String) : List Path :=
  let p := home.resolve arg
  p :: ⟨p.names ++ [diagramName]⟩ :: p.ancestors

def visualize (w : World) (directory : String) : Report :=
  let dir := w.files.home.resolve directory
  let file : Path := ⟨dir.names ++ [diagramName]⟩
  match w.files.directoryFault? dir, w.files.look file with
  | some e, _ => .failed "" e
  | none, .ok .directory => .failed "" (.isDirectory file.text)
  | none, .error .nameTooLong => .failed "" (.nameTooLong file.text)
  | none, found => ⟨reportLine w.stamp "Metamodel written to: " file.text, none,
      if found.isOk then [] else [file]⟩

def Command.failureLabel : Command → String
  | validate => "Validation failed with error(s): "
  | inspect => "Inspect failed with error(s): "
  | render => "Render failed with error(s): "
  | visualize => "Visualization failed with: "

def Command.report (w : World) (verbosity : Int) (given : Given) (path : String) :
    Command → Report
  | validate => CommandLine.validate w verbosity path
  | inspect => CommandLine.inspect w path
  | render => CommandLine.render w path (given.has "--skillsets") !(given.has "--no-resolve")
  | visualize => CommandLine.visualize w ((given.value? "--out").getD "docs")

def Command.notes (w : World) (given : Given) (path : String) : Command → List Note
  | validate | inspect => Model.fileNotes w.files path .empty Stage.check
  | render =>
    Model.fileNotes w.files path .empty (if given.has "--no-resolve" then [] else Stage.check)
  | visualize => []

def Report.outcome (stamp label logged : String) (r : Report) : Outcome :=
  match r.failure with
  | none => ⟨0, r.printed, logged, r.newFiles⟩
  | some e => ⟨1, r.printed ++ reportLine stamp label e.message, logged, r.newFiles⟩

def refused (context : Context) (fault : UsageFault) : Outcome :=
  ⟨2, "", withoutSequences (fault.report context), []⟩

def helped (context : Context) : Outcome := ⟨0, context.help, "", []⟩

def runCommand (w : World) (log : Log) (verbosity : Int) (c : Command) (args : List String) :
    Outcome :=
  match read c.options true args with
  | .error fault => refused (some c) (.option fault)
  | .ok given =>
    if given.has helpOption.long then helped (some c)
    else
      let execute := fun path =>
        (c.report w verbosity given path).outcome w.stamp c.failureLabel
          (log.emitAll (c.notes w given path))
      match c.takesModel, given.arguments with
      | true, [] => refused (some c) .noModel
      | true, [path] => execute path
      | false, [] => execute ""
      | true, _ :: extra => refused (some c) (.extra extra)
      | false, extra => refused (some c) (.extra extra)

def start (env : Environment) (args : List String) : Except Outcome (Int × List String) :=
  match read programOptions false args with
  | .error fault => .error (refused none (.option fault))
  | .ok given =>
    if given.has helpOption.long then .error (helped none)
    else
      match verbosityFrom given env with
      | .error fault => .error (refused none fault)
      | .ok verbosity => .ok (verbosity, given.arguments)

/-- A name that is no command's. Where it looks like an option the words from it on are read once
more as the program's own, which may end the call in another way. -/
def unknownCommand (env : Environment) (name : String) (args : List String) : Outcome :=
  let outcome := refused none (.unknownCommand name)
  if startsLikeOption name then
    match start env (name :: args) with
    | .error other => other
    | .ok _ => outcome
  else outcome

def call (w : World) (args : List String) : Outcome :=
  if args = [] then ⟨2, "", Context.help none, []⟩
  else
    match start w.env args with
    | .error outcome => outcome
    | .ok (_, []) => refused none .noCommand
    | .ok (verbosity, name :: args) =>
      match Command.ofName? name with
      | none => unknownCommand w.env name args
      | some c =>
        match Log.unconfigured.configure verbosity w.env with
        | (_, .error e) => refused none (.environment e)
        | (log, .ok _) => runCommand w log verbosity c args

def Outcome.withPlainLines (o : Outcome) : Outcome :=
  { o with stdout := Text.withPlainLines o.stdout, stderr := Text.withPlainLines o.stderr }

/-- What a call does. The lines of its texts end with line feeds alone. -/
def run (w : World) (args : List String) : Outcome := (call w args).withPlainLines

end RobotLang.CommandLine
