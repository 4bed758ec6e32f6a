import RobotLang.Build
import RobotLang.Model.Key

namespace RobotLang

open Files

inductive Edit
  | addInclude (file : String)
  | addRobot (name : String) (position : Option Position)
  | addType (name : String) (position : Option Position)
  | addFunction (name : String) (parameters : List Parameter) (body : List Expr)
      (position : Option Position)
  | addMethod (name : String) (parameters : List Parameter) (position : Option Position)
  | addImportedType (name : String) (position : Option Position)
  | addSkillset (name : String) (skills : List String) (position : Option Position)
  | addRosCall (call : RosCall)
  | setParameterType (owner : Key) (index : Int) (type : ParamType)
  | appendParameter (owner : Key) (parameter : Parameter)
  | loadSkillset (text : String)
  | loadSkillsetFile (path : String)
  | loadIncludes (base : String)
  | run (stages : List Stage)
  deriving Repr

namespace Edit

def orKeep (m : Model) (r : Except Error Model) : Model × Option Error :=
  match r with
  | .ok m => (m, none)
  | .error e => (m, some e)

def withImported (m : Model) (r : Except Error Imported) : Model × Option Error :=
  orKeep m (r.map fun imported => { m with imported })

def apply (t : Tree) (m : Model) : Edit → Model × Option Error
  | addInclude file => (m.addInclude file, none)
  | addRobot name position => (m.addRobot name position, none)
  | addType name position => (m.addType name position, none)
  | addFunction name parameters body position => (m.addFunction name parameters body position, none)
  | addMethod name parameters position => (m.addMethod name parameters position, none)
  | addImportedType name position =>
    ({ m with imported := m.imported.addType name position }, none)
  | addSkillset name skills position =>
    ({ m with imported := m.imported.addSkillset name skills position }, none)
  | addRosCall call => (m.addRosCall call, none)
  | setParameterType owner index type => orKeep m (m.setParameterType owner index type)
  | appendParameter owner parameter => orKeep m (m.appendParameter owner parameter)
  | loadSkillset text => withImported m (m.imported.load ⟨none, text.toList⟩)
  | loadSkillsetFile path => withImported m (m.imported.loadFile t path)
  | loadIncludes base => m.loadIncludes t base
  | run stages => Stage.runAll stages m

def newKey (m : Model) : Edit → Option Key
  | addRobot .. => some (.id .robot (.next m.robots))
  | addType .. => some (.id .type (.next m.types))
  | addFunction .. => some (.id .function (.next m.functions))
  | addMethod .. => some (.id .method (.next m.methods))
  | addImportedType .. => some (.id .importedType (.next m.imported.types))
  | addSkillset .. => some (.id .skillset (.next m.imported.skillsets))
  | _ => none

def applyAll (t : Tree) (m : Model) (edits : List Edit) : Model :=
  edits.foldl (fun m e => (e.apply t m).1) m

end Edit

inductive Origin
  | text (text : String) (base : Option String)
  | file (path : String)
  deriving DecidableEq, Repr

structure Session where
  current : Model
  saved : List Model

namespace Session

def start : Session := ⟨.empty, []⟩

def edit (t : Tree) (s : Session) (e : Edit) : Session × Option Error :=
  let r := e.apply t s.current
  ({ s with current := r.1 }, r.2)

def push (s : Session) : Session := { s with saved := s.current :: s.saved }

def pop (s : Session) : Session × Option Error :=
  match s.saved with
  | [] => (s, some .nothingSaved)
  | m :: saved => (⟨m, saved⟩, none)

def renew (s : Session) : Session := { s with current := .empty }

def openFrom (t : Tree) (origin : Origin) (imported : Imported) : Except Error Model × Imported :=
  match origin with
  | .text text base => Model.parseText t (base.getD "") text imported
  | .file path => Model.parseFile t path imported

/-- Replaces the current model by one that is read and goes through the stages. If the imported
entries are kept, they are those of the new model too, and what was loaded before a failure stays
with the current one. -/
def read (t : Tree) (origin : Origin) (stages : List Stage) (keep : Bool) (s : Session) :
    Session × Option Error :=
  let r := Model.checked stages (openFrom t origin (if keep then s.current.imported else .empty))
  match r.1 with
  | .ok m => ({ s with current := m }, none)
  | .error e =>
    (if keep then { s with current := { s.current with imported := r.2 } } else s, some e)

end Session

end RobotLang
