import RobotLang.Grammar.Tree

namespace RobotLang

open Grammar (CallKind)

structure RosCall where
  topic : String
  kind : CallKind
  deriving DecidableEq, Repr

namespace RosCall

def text (c : RosCall) : String := c.kind.text ++ " " ++ c.topic

def before (c d : RosCall) : Bool :=
  c.topic < d.topic || (c.topic == d.topic && c.kind.text < d.kind.text)

end RosCall

structure CallRegistry where
  calls : List RosCall
  deriving DecidableEq, Repr

namespace CallRegistry

def empty : CallRegistry := ⟨[]⟩

def insertInto (c : RosCall) : List RosCall → List RosCall
  | [] => [c]
  | d :: ds => if c = d then d :: ds else if c.before d then c :: d :: ds else d :: insertInto c ds

/-- A call that is there already is not entered again. -/
def insert (r : CallRegistry) (c : RosCall) : CallRegistry := ⟨insertInto c r.calls⟩

def insertAll (r : CallRegistry) (cs : List RosCall) : CallRegistry := cs.foldl insert r

def size (r : CallRegistry) : Nat := r.calls.length

instance : Membership RosCall CallRegistry := ⟨fun r c => c ∈ r.calls⟩

theorem mem_def {r : CallRegistry} {c : RosCall} : c ∈ r ↔ c ∈ r.calls := .rfl

instance (r : CallRegistry) (c : RosCall) : Decidable (c ∈ r) :=
  decidable_of_iff (c ∈ r.calls) mem_def.symm

theorem mem_insertInto {c d : RosCall} {cs : List RosCall} :
    d ∈ insertInto c cs ↔ d = c ∨ d ∈ cs := by
  induction cs with
  | nil => simp [insertInto]
  | cons e es ih =>
    simp only [insertInto]
    split
    · next h => simp [h]
    · split
      · simp
      · simp only [List.mem_cons, ih]; grind

theorem mem_insert {r : CallRegistry} {c d : RosCall} : d ∈ r.insert c ↔ d = c ∨ d ∈ r :=
  mem_insertInto

theorem mem_insertAll {r : CallRegistry} {cs : List RosCall} {d : RosCall} :
    d ∈ r.insertAll cs ↔ d ∈ r ∨ d ∈ cs := by
  induction cs generalizing r with
  | nil => simp [insertAll]
  | cons c cs ih =>
    have := ih (r := r.insert c)
    simp only [insertAll, List.foldl_cons, List.mem_cons] at this ⊢
    rw [this, mem_insert]
    grind

end CallRegistry

end RobotLang
