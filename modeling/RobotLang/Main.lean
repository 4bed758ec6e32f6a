import RobotLang.CommandLine.Run
import Std.Time

open RobotLang CommandLine Files

def contentAt (p : Path) : IO (Option Content) := do
  try
    let data ← IO.FS.readBinFile p.text
    return some (.bytes data.toList)
  catch
    | .inappropriateType _ 21 _ => return some .directory
    | _ => return none

def withContents (t : Tree) (paths : List Path) : IO Tree := do
  let mut entries := t.entries
  for p in paths do
    if let some content ← contentAt p then entries := (p, content) :: entries
  return { t with entries }

def stampToday : IO String := do
  let now ← Std.Time.PlainDate.now
  let two := fun n : Int => if n < 10 then s!"0{n}" else s!"{n}"
  return s!"[{now.year.toInt}-{two now.month.toInt}-{two now.day.toInt}]"

def readEnvironment : IO Environment := do
  let values ← [Log.levelVariable, verbosityVariable].mapM fun name => do
    return (← IO.getEnv name).map fun value => (name, value)
  return values.filterMap fun value => value

/-- A new file is made empty: what a diagram of the grammar looks like is left out here. -/
def makeFile (p : Path) : IO Unit := do
  IO.FS.createDirAll p.parent.text
  IO.FS.writeFile p.text ""

def main (args : List String) : IO UInt32 := do
  let home := Path.root.resolve (← IO.currentDir).toString
  let named ← withContents ⟨home, []⟩ ((args ++ ["docs"]).flatMap (touchedPaths home))
  let files ← withContents named (args.flatMap (Model.pathsIncludedBy named))
  let outcome := run ⟨files, ← readEnvironment, ← stampToday⟩ args
  outcome.newFiles.forM makeFile
  (← IO.getStdout).putStr outcome.stdout
  (← IO.getStderr).putStr outcome.stderr
  return UInt32.ofNat outcome.exitCode
