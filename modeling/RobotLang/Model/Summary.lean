import RobotLang.Model.Text

namespace RobotLang.Model

open Text (joined)

variable (m : Model)

def positionText : Option Position → String
  | some p => p.text
  | none => "None"

def targetText : Option Target → String
  | none => "unbound"
  | some (.parameter index) => s!"parameter #{index}"
  | some (.function id) =>
    "function " ++ ((id.find? m.functions).map fun f => f.name).getD "?"
  | some (.method id) => "method " ++ ((id.find? m.methods).map fun f => f.name).getD "?"
  | some (.type t) => t.kindName ++ " " ++ m.typeText t

def targetText? (target : Option Target) : Option String :=
  match target with
  | some (.type t) => (m.typeText? t).map fun _ => m.targetText target
  | _ => some (m.targetText target)

def countLines : List String :=
  let counts := fun label (n : Nat) => label ++ ": " ++ toString n
  ["=== SUMMARY ===",
    joined " | " [counts "Includes" m.includes.length, counts "Robots" m.robots.length,
      counts "Types" m.types.length],
    joined " | " [counts "Functions" m.functions.length, counts "Methods" m.methods.length,
      counts "ROS calls" m.rosCalls.size],
    joined " | " [counts "Imported skillsets" m.imported.skillsets.length,
      counts "Imported types" m.imported.types.length],
    ""]

def titledList (title : String) (lines : List String) : List String :=
  if lines = [] then [] else ("=== " ++ title ++ " ===") :: lines ++ [""]

def skillsetSummary (s : Skillset) : String :=
  "- skillset " ++ s.name ++
    if s.skills = [] then "" else " skills=[" ++ joined ", " s.skills ++ "]"

def entitySummary {kind : Kind} (e : Entity kind) : String :=
  "- " ++ e.name ++ " (" ++ positionText e.position ++ ")"

def bindingSummary (b : String × Option Target) : String :=
  "    • " ++ b.1 ++ " -> " ++ m.targetText b.2

def functionSummary (f : Function) : List String :=
  ("- " ++ m.signatureText f.name f.parameters) ::
    (Expr.bindingsOf f.body).map m.bindingSummary

def summaryLines : List String :=
  m.countLines ++
    titledList "INCLUDES" (m.includes.map ("- " ++ ·)) ++
    titledList "IMPORTED" (m.imported.skillsets.map skillsetSummary ++
      m.imported.types.map fun t => "- type " ++ t.name) ++
    titledList "ROBOTS" (m.robots.map entitySummary) ++
    titledList "TYPES" (m.types.map entitySummary) ++
    titledList "FUNCTIONS" (m.functions.flatMap m.functionSummary) ++
    titledList "METHODS" (m.methods.map fun f => "- " ++ m.signatureText f.name f.parameters) ++
    titledList "ROS CALLS" (m.rosCalls.calls.map fun c => "- " ++ c.text)

def summary : String := String.join (m.summaryLines.map (· ++ "\n"))

/-- Bodies may hold what has no written form, but parameter types and targets may not. -/
def isSummarizable : Bool :=
  m.functions.all (fun f => parametersWritable f.parameters &&
      (Expr.bindingsOf f.body).all fun b => (m.targetText? b.2).isSome) &&
    m.methods.all fun f => parametersWritable f.parameters

def summary? : Option String := if m.isSummarizable then some m.summary else none

end RobotLang.Model
