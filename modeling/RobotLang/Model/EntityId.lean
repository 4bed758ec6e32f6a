import RobotLang.Position

namespace RobotLang

variable {α : Type}

inductive Kind
  | robot
  | type
  | function
  | method
  | skillset
  | importedType
  deriving DecidableEq, Repr

def Kind.idName : Kind → String
  | robot => "RobotId"
  | type => "RlcTypeId"
  | function => "FunctionId"
  | method => "DeclMethodId"
  | skillset => "SkillsetId"
  | importedType => "TypeId"

def Kind.entityName : Kind → String
  | robot => "Robot"
  | type => "RlcType"
  | function => "Function"
  | method => "DeclMethod"
  | skillset => "Skillset"
  | importedType => "DataType"

/-- The index may be any integer; only those of a store's entries lead anywhere. -/
structure EntityId (kind : Kind) where
  index : Int
  deriving DecidableEq, Repr

namespace EntityId

variable {kind : Kind}

def describe (id : EntityId kind) : String := s!"{kind.idName}(index={id.index})"

def find? (id : EntityId kind) (store : List α) : Option α :=
  if 0 ≤ id.index then store[id.index.toNat]? else none

def next (store : List α) : EntityId kind := ⟨store.length⟩

@[simp] theorem find?_ofNat (n : Nat) (store : List α) :
    (⟨n⟩ : EntityId kind).find? store = store[n]? := by
  simp [find?]

theorem find?_of_neg {id : EntityId kind} (h : id.index < 0) (store : List α) :
    id.find? store = none := by
  simp [find?, Int.not_le.2 h]

end EntityId

end RobotLang
