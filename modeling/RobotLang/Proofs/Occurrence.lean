import RobotLang.Proofs.FirstFailure
import RobotLang.Proofs.NameLookup
import RobotLang.Resolve.Bodies

namespace RobotLang

inductive Role
  | value
  | callee
  deriving DecidableEq, Repr

structure Occurrence where
  role : Role
  name : String
  target : Option Target
  position : Option Position
  deriving DecidableEq, Repr

namespace Occurrence

def element (o : Occurrence) : String :=
  match o.role with
  | .value => s!"identifier '{o.name}'"
  | .callee => s!"function '{o.name}'"

end Occurrence

namespace Expr

mutual

def occurrences : Expr → List Occurrence
  | literal .. | abstract => []
  | reference name target position => [⟨.value, name, target, position⟩]
  | call name args target position => ⟨.callee, name, target, position⟩ :: occurrencesOf args
  | ros _ _ args _ => occurrencesOf args

def occurrencesOf : List Expr → List Occurrence
  | [] => []
  | e :: es => occurrences e ++ occurrencesOf es

end

mutual

/-- The expression with nothing bound. -/
def shape : Expr → Expr
  | literal value position => literal value position
  | reference name _ position => reference name none position
  | call name args _ position => call name (shapes args) none position
  | ros kind topic args position => ros kind topic (shapes args) position
  | abstract => abstract

def shapes : List Expr → List Expr
  | [] => []
  | e :: es => shape e :: shapes es

end

def Unbound (es : List Expr) : Prop := ∀ o ∈ occurrencesOf es, o.target = none

instance (es : List Expr) : Decidable (Unbound es) :=
  inferInstanceAs (Decidable (∀ o ∈ occurrencesOf es, o.target = none))

theorem unbound_nil : Unbound [] := by simp [Unbound, occurrencesOf]

mutual

theorem bindings_eq_map : ∀ e : Expr, e.bindings = e.occurrences.map fun o => (o.name, o.target)
  | literal .. | abstract | reference .. => rfl
  | call _ args _ _ => by simp only [bindings, occurrences, List.map_cons, bindingsOf_eq_map args]
  | ros _ _ args _ => by simp only [bindings, occurrences, bindingsOf_eq_map args]

theorem bindingsOf_eq_map : ∀ es : List Expr,
    bindingsOf es = (occurrencesOf es).map fun o => (o.name, o.target)
  | [] => rfl
  | e :: es => by
      simp only [bindingsOf, occurrencesOf, List.map_append, bindings_eq_map e, bindingsOf_eq_map es]

end

end Expr

namespace Occurrence

variable (scope : Scope) (parameters : List Parameter)

def targetIn (o : Occurrence) : Option Target :=
  match o.role with
  | .value => Expr.valueTarget scope parameters o.name
  | .callee => scope.callable? o.name

def bind (o : Occurrence) : Occurrence × Option Error :=
  match o.targetIn scope parameters with
  | some target => ({ o with target := some target }, none)
  | none => (o, some (.unresolved o.element o.position))

end Occurrence

namespace Expr

variable (scope : Scope) (parameters : List Parameter)

mutual

/-- The pass over an expression is the pass over its occurrences. -/
theorem occurrences_bind : ∀ e : Expr,
    ((bind scope parameters e).1.occurrences, (bind scope parameters e).2) =
      mapUntil (Occurrence.bind scope parameters) e.occurrences
  | literal .. | abstract => rfl
  | reference name target position => by
      cases h : valueTarget scope parameters name <;>
        simp [bind, occurrences, mapUntil, Occurrence.bind, Occurrence.targetIn, Occurrence.element, h]
  | call name args target position => by
      have ih := occurrencesOf_bindAll args
      cases h : scope.callable? name with
      | none =>
          simp [bind, occurrences, mapUntil, Occurrence.bind, Occurrence.targetIn,
            Occurrence.element, h]
      | some bound =>
          simp only [bind, occurrences, mapUntil, Occurrence.bind, Occurrence.targetIn, h, ← ih]
  | ros kind topic args position => by
      simpa only [bind, occurrences] using occurrencesOf_bindAll args

theorem occurrencesOf_bindAll : ∀ es : List Expr,
    (occurrencesOf (bindAll scope parameters es).1, (bindAll scope parameters es).2) =
      mapUntil (Occurrence.bind scope parameters) (occurrencesOf es)
  | [] => rfl
  | e :: es => by
      have he := occurrences_bind e
      have hs := occurrencesOf_bindAll es
      rw [occurrencesOf, mapUntil_append, ← he, ← hs, bindAll]
      rcases bind scope parameters e with ⟨e, _ | error⟩ <;> rfl

end

mutual

theorem shape_bind : ∀ e : Expr, (bind scope parameters e).1.shape = e.shape
  | literal .. | abstract => rfl
  | reference name target position => by
      rw [bind]
      split <;> rfl
  | call name args target position => by
      have ih := shapes_bindAll args
      rw [bind]
      split
      · simp only [shape, ih]
      · rfl
  | ros kind topic args position => by
      simp only [bind, shape, shapes_bindAll args]

theorem shapes_bindAll : ∀ es : List Expr, shapes (bindAll scope parameters es).1 = shapes es
  | [] => rfl
  | e :: es => by
      have he := shape_bind e
      have hs := shapes_bindAll es
      rw [bindAll]
      rcases hb : bind scope parameters e with ⟨b, _ | error⟩
      · rw [hb] at he
        simp only [shapes, he, hs]
      · rw [hb] at he
        simp only [shapes, he]

end

end Expr

end RobotLang
