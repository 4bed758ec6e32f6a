import RobotLang.Files.Tree
import RobotLang.Source
import RobotLang.Stage

namespace RobotLang

open Files

variable {α : Type} [DecidableEq α]

def distinctFrom (seen : List α) : List α → List α
  | [] => []
  | a :: as => if a ∈ seen then distinctFrom seen as else a :: distinctFrom (a :: seen) as

def distinct (as : List α) : List α := distinctFrom [] as

def Files.Tree.source (t : Tree) (shown : String) (p : Path) : Except Error Source :=
  (t.readText shown p).map fun text => ⟨some shown, text⟩

def Files.Tree.existingSource (t : Tree) (p : Path) (missing : Error) : Except Error Source :=
  (t.readExisting p missing).map fun text => ⟨some p.text, text⟩

namespace Imported

def loadShown (t : Tree) (m : Imported) (shown : String) (p : Path) : Except Error Imported :=
  match t.source shown p with
  | .error e => .error e
  | .ok s => m.load s

def loadFile (t : Tree) (m : Imported) (text : String) : Except Error Imported :=
  let p := t.home.spell text
  m.loadShown t (p.spelledText text) p

def loadInclude (t : Tree) (m : Imported) (p : Path) : Except Error Imported :=
  match t.existingSource p (.includeMissing p.text) with
  | .error e => .error e
  | .ok s => m.load s

def loadFiles (t : Tree) (m : Imported) : List Path → Imported × Option Error
  | [] => (m, none)
  | p :: ps =>
    match m.loadInclude t p with
    | .error e => (m, some e)
    | .ok m => loadFiles t m ps

def loadNotes (t : Tree) (m : Imported) : List Path → List Note
  | [] => []
  | p :: ps =>
    if t.exists? p then
      .info "rlc.include" s!"[INCLUDE] Loading {p.name}" ::
        match m.loadShown t p.text p with
        | .error _ => []
        | .ok m => loadNotes t m ps
    else []

end Imported

namespace Model

/-- The files that the includes name, seen from the directory `base`, each once. -/
def includePaths (home : Path) (base : String) (m : Model) : List Path :=
  distinct (m.includes.map fun file => home.resolve (Path.below base file))

def loadIncludes (t : Tree) (base : String) (m : Model) : Model × Option Error :=
  let r := m.imported.loadFiles t (m.includePaths t.home base)
  ({ m with imported := r.1 }, r.2)

def includeNotes (t : Tree) (base : String) (m : Model) : List Note :=
  m.imported.loadNotes t (m.includePaths t.home base)

/-- Reading a program with its includes, on top of imported entries. The imported entries
afterwards are answered whether or not there is a model. -/
def parseSource (t : Tree) (base : String) (s : Source) (imported : Imported) :
    Except Error Model × Imported :=
  match s.model imported with
  | .error e => (.error e, imported)
  | .ok m =>
    match m.loadIncludes t base with
    | (m, some e) => (.error e, m.imported)
    | (m, none) => (.ok m, m.imported)

def checked (stages : List Stage) (parsed : Except Error Model × Imported) :
    Except Error Model × Imported :=
  match parsed.1 with
  | .error e => (.error e, parsed.2)
  | .ok m =>
    match Stage.runAll stages m with
    | (_, some e) => (.error e, parsed.2)
    | (m, none) => (.ok m, parsed.2)

def parseText (t : Tree) (base text : String) (imported : Imported) :
    Except Error Model × Imported :=
  parseSource t base ⟨none, text.toList⟩ imported

def programSource (t : Tree) (path : String) : Except Error (Path × Source) :=
  let p := t.home.resolve path
  (t.existingSource p (.programMissing p.text)).map fun s => (p, s)

def parseFile (t : Tree) (path : String) (imported : Imported) : Except Error Model × Imported :=
  match programSource t path with
  | .error e => (.error e, imported)
  | .ok (p, s) => parseSource t p.parent.text s imported

def pathsIncludedBy (t : Tree) (path : String) : List Path :=
  match programSource t path with
  | .error _ => []
  | .ok (p, s) =>
    match s.model .empty with
    | .error _ => []
    | .ok m => m.includePaths t.home p.parent.text

def buildText (t : Tree) (base text : String) (imported : Imported) :
    Except Error Model × Imported :=
  checked Stage.check (parseText t base text imported)

def buildFile (t : Tree) (path : String) (imported : Imported) : Except Error Model × Imported :=
  checked Stage.check (parseFile t path imported)

def fileNotes (t : Tree) (path : String) (imported : Imported) (stages : List Stage) : List Note :=
  match programSource t path with
  | .error _ => []
  | .ok (p, s) =>
    match s.model imported with
    | .error _ => []
    | .ok m =>
      m.includeNotes t p.parent.text ++ match m.loadIncludes t p.parent.text with
        | (_, some _) => []
        | (m, none) => Stage.notesOfAll stages m

end Model

end RobotLang
