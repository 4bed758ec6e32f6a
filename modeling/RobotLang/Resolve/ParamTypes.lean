import RobotLang.Model.Key
import RobotLang.Resolve.Until

namespace RobotLang.Model

/-- The last entry of the name, or else what was found before. -/
def scanFor {kind : Kind} (name : String) (type : EntityId kind → ParamType)
    (entries : List (Entity kind)) (found : Option ParamType) : Option ParamType :=
  entries.foldl (fun found e => if e.name = name then some (type e.id) else found) found

def resolveTypeName (m : Model) (name : String) : Option ParamType :=
  scanFor name .declared m.types
    (scanFor name .imported m.imported.types
      (scanFor name .skillset (m.imported.skillsets.map (·.toEntity)) none))

structure Slot where
  owner : Key
  index : Nat
  parameter : Parameter
  deriving DecidableEq, Repr

def slotsOf (owner : Key) (ps : List Parameter) : List Slot := ps.mapIdx fun i p => ⟨owner, i, p⟩

def slots (m : Model) : List Slot :=
  m.functions.flatMap (fun f => slotsOf (.id .function f.id) f.parameters) ++
    m.methods.flatMap fun f => slotsOf (.id .method f.id) f.parameters

/-- Only a type that is a name yet is looked up, in the model as it is by then; what is found is
written through the key of the owner. -/
def resolveSlot (m : Model) (s : Slot) : Model × Option Error :=
  match s.parameter.type with
  | .unresolved name position =>
    match m.resolveTypeName name with
    | none => (m, some (.unresolved s!"type '{name}'" position))
    | some type =>
      match m.retypeAt s.owner s.index type with
      | .ok m => (m, none)
      | .error e => (m, some e)
  | _ => (m, none)

def resolveParameters (m : Model) : Model × Option Error := foldUntil resolveSlot m m.slots

end RobotLang.Model
