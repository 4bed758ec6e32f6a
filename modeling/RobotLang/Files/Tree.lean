import RobotLang.Error
import RobotLang.Files.Path

namespace RobotLang.Files

inductive Content
  | bytes (data : List UInt8)
  | directory
  deriving DecidableEq, Repr

inductive LookupFault
  | missing
  | belowFile
  | nameTooLong
  | unnameable
  deriving DecidableEq, Repr

def LookupFault.error (shown : String) : LookupFault → Error
  | missing => .fileMissing shown
  | belowFile => .notDirectory shown
  | nameTooLong => .nameTooLong shown
  | unnameable => .nullInPath

/-- A table from paths to their bytes. The directories above them exist as well, and so does the working
directory. -/
structure Tree where
  home : Path
  entries : List (Path × Content)
  deriving Repr

namespace Tree

def find? (t : Tree) (p : Path) : Option Content :=
  match t.entries.find? (·.1 = p) with
  | some entry => some entry.2
  | none =>
    if p.names.isPrefixOf t.home.names || t.entries.any (p.names.isPrefixOf ·.1.names) then
      some .directory
    else none

def walk (t : Tree) (above : Path) : List String → Except LookupFault Content
  | [] =>
    match t.find? above with
    | some content => .ok content
    | none => .error .missing
  | name :: names =>
    match t.find? above with
    | none => .error .missing
    | some (.bytes _) => .error .belowFile
    | some .directory =>
      if Path.nameIsLong name then .error .nameTooLong else t.walk ⟨above.names ++ [name]⟩ names

def lookAs (t : Tree) (shown : String) (p : Path) : Except LookupFault Content :=
  if p.isUnnameable then .error .unnameable
  else if Path.textIsLong shown then .error .nameTooLong
  else t.walk .root p.names

def look (t : Tree) (p : Path) : Except LookupFault Content := t.lookAs p.text p

def exists? (t : Tree) (p : Path) : Bool := (t.look p).isOk

def readText (t : Tree) (shown : String) (p : Path) : Except Error (List Char) :=
  match t.lookAs shown p with
  | .error fault => .error (fault.error shown)
  | .ok .directory => .error (.isDirectory shown)
  | .ok (.bytes data) =>
    match decode data with
    | .error fault => .error (.notText fault)
    | .ok cs => .ok (unifyLines cs)

/-- The text of a file, where a file that does not exist is the error `missing`. -/
def readExisting (t : Tree) (p : Path) (missing : Error) : Except Error (List Char) :=
  match t.look p with
  | .error .missing | .error .belowFile => .error missing
  | _ => t.readText p.text p

def directoryFault? (t : Tree) (p : Path) : Option Error :=
  match t.look p with
  | .ok .directory => none
  | .ok (.bytes _) => some (.isFile p.text)
  | .error .missing =>
    (p.names.findIdx? Path.nameIsLong).map fun i => .nameTooLong (⟨p.names.take (i + 1)⟩ : Path).text
  | .error fault => some (fault.error p.text)

end Tree

end RobotLang.Files
