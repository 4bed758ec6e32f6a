import RobotLang.Files.Utf8
import RobotLang.Grammar.SyntaxError
import RobotLang.Model.EntityId
import RobotLang.Text.Quoted

namespace RobotLang

open Grammar (SyntaxError)
open Text (quoted)

inductive Error
  | malformed (file : Option String) (e : SyntaxError)
  | nothingDeclared
  | numeralTooLong (digits : Nat)
  | repeatedInclude (name : String)
  | duplicate (kind : Option String) (name : String) (first second : Option Position)
  | importedName (name : String)
  | unresolved (element : String) (position : Option Position)
  | includeMissing (path : String)
  | programMissing (path : String)
  | fileMissing (path : String)
  | isDirectory (path : String)
  | isFile (path : String)
  | notDirectory (path : String)
  | nameTooLong (path : String)
  | nullInPath
  | notText (fault : Files.DecodeFault)
  | notAnEntity (described : String)
  | notAnOwner (described : String)
  | noSuchOwner (described : String)
  | parameterIndex
  /-- An index that does not fit into a machine word. -/
  | indexTooWide
  | nothingSaved
  | notACallKind (text : String)
  | incomparable (left right : String)
  | missingPart (object part : String)
  | notWritable
  | unknownExpression (name : String)
  | unknownDeclaration (name : String)
  | unknownLevel (text : String)
  deriving DecidableEq, Repr

namespace Error

def numeralLimit : Nat := 4300

def placeText (p : Option Position) : String := (p.map Position.text).getD "None"

def located (p : Option Position) (message : String) : String :=
  match p with
  | none => message
  | some p =>
    if p.line = 0 ∧ p.column = 0 ∧ p.file.getD "" = "" then message
    else p.file.getD "None" ++ s!":{p.line}:{p.column}: " ++ message

def position : Error → Option Position
  | malformed file e => some (.ofPlace file e.place)
  | duplicate _ _ _ second => second
  | unresolved _ position => position
  | _ => none

def plainMessage : Error → String
  | malformed _ e => e.message
  | nothingDeclared => "'str' object has no attribute 'elements'"
  | numeralTooLong digits =>
    s!"Exceeds the limit ({numeralLimit} digits) for integer string conversion: " ++
      s!"value has {digits} digits; use sys.set_int_max_str_digits() to increase the limit"
  | repeatedInclude name => s!"include '{name}' is defined twice"
  | duplicate kind name first second =>
    let what := match kind with
      | some kind => if kind = "" then s!"'{name}'" else s!"{kind} '{name}'"
      | none => s!"'{name}'"
    what ++ " is defined twice (first at " ++ placeText first ++ ", then at " ++
      placeText second ++ ")"
  | importedName name => s!"type '{name}' is already defined by an included skillset"
  | unresolved element position =>
    "unable to resolve " ++ element ++ (match position with
      | some p => " at " ++ p.text
      | none => "")
  | includeMissing path => "Include not found: " ++ path
  | programMissing path => "File not found: " ++ path
  | fileMissing path => "[Errno 2] No such file or directory: " ++ quoted path
  | isDirectory path => "[Errno 21] Is a directory: " ++ quoted path
  | isFile path => "[Errno 17] File exists: " ++ quoted path
  | notDirectory path => "[Errno 20] Not a directory: " ++ quoted path
  | nameTooLong path => "[Errno 36] File name too long: " ++ quoted path
  | nullInPath => "embedded null byte"
  | notText fault => fault.message
  | notAnEntity described => "Not a model identifier: " ++ described
  | notAnOwner described => "Parameters belong to functions or methods, got " ++ described
  | noSuchOwner described => described
  | parameterIndex => "list index out of range"
  | indexTooWide => "cannot fit 'int' into an index-sized integer"
  | nothingSaved => "pop from empty list"
  | notACallKind text => quoted text ++ " is not a valid RosCallType"
  | incomparable left right =>
    s!"'<' not supported between instances of '{left}' and '{right}'"
  | missingPart object part => s!"'{object}' object has no attribute '{part}'"
  | notWritable => ""
  | unknownExpression name => "Unsupported expression node: " ++ name
  | unknownDeclaration name => "Unsupported declaration: " ++ name
  | unknownLevel text => "RLC_LOG=" ++ quoted text ++ " is not a logging level"

def message (e : Error) : String := located e.position e.plainMessage

end Error

end RobotLang
