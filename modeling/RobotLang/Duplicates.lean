import RobotLang.Error
import RobotLang.Model.Basic

namespace RobotLang

structure Sighting where
  seen : List (String × Nat)
  best : Option (Nat × Nat)

def Sighting.meet (s : Sighting) (name : String) (j : Nat) : Sighting :=
  match s.seen.lookup name with
  | none => { s with seen := (name, j) :: s.seen }
  | some i =>
    match s.best with
    | none => { s with best := some (i, j) }
    | some best => if i < best.1 then { s with best := some (i, j) } else s

def Sighting.meetFrom (s : Sighting) : Nat → List String → Sighting
  | _, [] => s
  | j, name :: names => (s.meet name j).meetFrom (j + 1) names

/-- The least index whose name occurs again, and the index of the next occurrence. -/
def firstCollision (names : List String) : Option (Nat × Nat) :=
  (Sighting.meetFrom ⟨[], none⟩ 0 names).best

namespace Model

def entityCollision (label : String) (entries : List (String × Option Position)) : Option Error :=
  match firstCollision (entries.map (·.1)) with
  | none => none
  | some (i, j) =>
    match entries[i]?, entries[j]? with
    | some a, some b => some (.duplicate (some label) a.1 a.2 b.2)
    | _, _ => none

def labels {kind : Kind} (entities : List (Entity kind)) : List (String × Option Position) :=
  entities.map fun e => (e.name, e.position)

variable (m : Model)

def includeCollision : Option Error :=
  match firstCollision m.includes with
  | none => none
  | some (i, _) => m.includes[i]?.map .repeatedInclude

def typeCollision : Option Error :=
  (entityCollision "type" (labels m.types)).orElse fun _ =>
    (m.types.find? fun t => m.imported.types.any (·.name == t.name)).map fun t =>
      .importedName t.name

def duplicateError : Option Error :=
  m.includeCollision <|> entityCollision "robot" (labels m.robots) <|> m.typeCollision <|>
    entityCollision "function" (labels (m.functions.map (·.toEntity))) <|>
    entityCollision "method" (labels (m.methods.map (·.toEntity)))

end Model

end RobotLang
