import RobotLang.Error
import RobotLang.Grammar.Program
import RobotLang.Grammar.Skillsets
import RobotLang.Model.Basic

namespace RobotLang

open Grammar

structure Source where
  file : Option String
  text : List Char

namespace Source

def position (s : Source) (mark : Nat) : Option Position :=
  some (.ofPlace s.file (Place.fromEnd s.text mark))

def read {α : Type} (s : Source) (p : Parser (List α)) : Except Error (List α) :=
  match p.read s.text with
  | .error e => .error (.malformed s.file e)
  | .ok [] => .error .nothingDeclared
  | .ok (a :: as) => .ok (a :: as)

def skillsets (s : Source) : Except Error (List SkillsetEntry) := s.read skillsetFile

end Source

namespace Imported

def add (s : Source) (m : Imported) : SkillsetEntry → Imported
  | .type mark name => m.addType name (s.position mark)
  | .skillset mark name skills => m.addSkillset name skills (s.position mark)

def addAll (s : Source) (m : Imported) (entries : List SkillsetEntry) : Imported :=
  entries.foldl (add s) m

def load (m : Imported) (s : Source) : Except Error Imported := s.skillsets.map (m.addAll s)

theorem load_eq_ok_iff {m n : Imported} {s : Source} :
    m.load s = .ok n ↔ ∃ es, s.skillsets = .ok es ∧ m.addAll s es = n := by
  rw [load]
  cases s.skillsets <;> simp [Except.map]

theorem load_eq_error_iff {m : Imported} {s : Source} {e : Error} :
    m.load s = .error e ↔ s.skillsets = .error e := by
  rw [load]
  cases s.skillsets <;> simp [Except.map]

end Imported

namespace Source

def type (s : Source) (mark : Nat) (name : String) : ParamType :=
  if name = "bool" then .boolean else .unresolved name (s.position mark)

def parameter (s : Source) (p : ParameterTree) : Parameter :=
  ⟨p.name, s.type p.typeMark p.typeName, s.position p.mark⟩

def literal : LiteralTree → Literal
  | .string x => .string x
  | .real x => .real x
  | .integer n => .integer n.value
  | .boolean b => .boolean b

mutual

def expr (s : Source) : ExprTree → Expr
  | .ros mark kind topic args => .ros kind topic (exprs s args) (s.position mark)
  | .call mark name args => .call name (exprs s args) none (s.position mark)
  | .literal mark value => .literal (literal value) (s.position mark)
  | .name mark name => .reference name none (s.position mark)

def exprs (s : Source) : List ExprTree → List Expr
  | [] => []
  | e :: es => expr s e :: exprs s es

end

theorem exprs_eq_map (s : Source) (es : List ExprTree) : s.exprs es = es.map s.expr := by
  induction es with
  | nil => rfl
  | cons e es ih => simp [exprs, ih]

end Source

namespace Model

def add (s : Source) (m : Model) : Declaration → Model
  | .includes file => m.addInclude file
  | .robot mark name => m.addRobot name (s.position mark)
  | .type mark name => m.addType name (s.position mark)
  | .function mark name ps body =>
    m.addFunction name (ps.map s.parameter) (s.exprs body) (s.position mark)
  | .method mark name ps => m.addMethod name (ps.map s.parameter) (s.position mark)

end Model

namespace Source

/-- The value of a numeral that has no more digits than a number may have. -/
def integer (n : Number.Numeral) : Except Error Int :=
  if Error.numeralLimit < n.digits.length then .error (.numeralTooLong n.digits.length)
  else .ok n.value

mutual

def longNumerals : ExprTree → List Nat
  | .ros _ _ _ args | .call _ _ args => longNumeralsOf args
  | .literal _ (.integer n) =>
    if Error.numeralLimit < n.digits.length then [n.digits.length] else []
  | .literal .. | .name .. => []

def longNumeralsOf : List ExprTree → List Nat
  | [] => []
  | e :: es => longNumerals e ++ longNumeralsOf es

end

def declaredLongNumerals : Declaration → List Nat
  | .function _ _ _ body => longNumeralsOf body
  | _ => []

def program (s : Source) : Except Error (List Declaration) :=
  match s.read Grammar.program with
  | .error e => .error e
  | .ok ds =>
    match ds.flatMap declaredLongNumerals with
    | [] => .ok ds
    | digits :: _ => .error (.numeralTooLong digits)

def model (s : Source) (imported : Imported) : Except Error Model :=
  s.program.map fun ds => ds.foldl (Model.add s) (.besides imported)

end Source

end RobotLang
