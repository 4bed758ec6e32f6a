import RobotLang.Proofs.Answers
import RobotLang.Proofs.Printing
import RobotLang.Proofs.Reachable

namespace RobotLang

open Grammar Number

/-- A type as it is read: the boolean one, or a name that is yet to be looked up. -/
def ParamType.IsRead : ParamType → Prop
  | boolean => True
  | unresolved name _ => IsIdentifier name ∧ name ≠ "bool"
  | _ => False

def Parameter.IsRead (p : Parameter) : Prop := IsIdentifier p.name ∧ p.type.IsRead

def Grammar.LiteralTree.IsShort : LiteralTree → Prop
  | integer n => n.digits.length ≤ Error.numeralLimit
  | string _ | real _ | boolean _ => True

structure Function.IsRead (f : Function) : Prop where
  name : IsIdentifier f.name
  parameters : ∀ p ∈ f.parameters, p.IsRead
  unbound : Expr.shapes f.body = f.body
  readable : ExprTree.AllReadableWith LiteralTree.IsShort (Expr.trees f.body)

structure Method.IsRead (f : Method) : Prop where
  name : IsIdentifier f.name
  parameters : ∀ p ∈ f.parameters, p.IsRead

structure Model.IsRead (m : Model) : Prop where
  robots : ∀ r ∈ m.robots, IsIdentifier r.name
  types : ∀ t ∈ m.types, IsIdentifier t.name
  functions : ∀ f ∈ m.functions, f.IsRead
  methods : ∀ f ∈ m.methods, f.IsRead

namespace Source

variable (s : Source)

mutual

theorem shape_expr : ∀ e : ExprTree, (s.expr e).shape = s.expr e
  | .literal .. | .name .. => rfl
  | .call _ _ args => by simp only [expr, Expr.shape, shapes_exprs args]
  | .ros _ _ _ args => by simp only [expr, Expr.shape, shapes_exprs args]

theorem shapes_exprs : ∀ es : List ExprTree, Expr.shapes (s.exprs es) = s.exprs es
  | [] => rfl
  | e :: es => by simp only [exprs, Expr.shapes, shape_expr e, shapes_exprs es]

end

theorem startsWithString_trees (es : List ExprTree) :
    startsWithString (Expr.trees (s.exprs es)) = startsWithString es := by
  rcases es with _ | ⟨_ | _ | ⟨mark, _ | _ | _ | _⟩ | _, es⟩ <;> rfl

theorem isShort_literal {mark : Nat} {v : LiteralTree} (hv : v.IsProper)
    (hl : longNumerals (.literal mark v) = []) : (literal v).tree.IsShort := by
  cases v with
  | integer n =>
      rw [longNumerals] at hl
      split at hl
      · cases hl
      next hn => exact Numeral.length_ofInt_value_le hv (by decide) (Nat.not_lt.1 hn)
  | string x | real x | boolean b => trivial

mutual

theorem readable_expr : ∀ e : ExprTree, e.ReadableWith LiteralTree.IsProper → longNumerals e = [] →
    (s.expr e).tree.ReadableWith LiteralTree.IsShort
  | .literal .., hr, hl => isShort_literal hr hl
  | .name _ _, hr, _ => hr
  | .call _ _ args, hr, hl =>
      ⟨hr.1, fun k hk => (s.startsWithString_trees args).trans (hr.2.1 k hk), readable_exprs args hr.2.2 hl⟩
  | .ros _ _ _ args, hr, hl => readable_exprs args hr hl

theorem readable_exprs : ∀ es : List ExprTree, ExprTree.AllReadableWith LiteralTree.IsProper es →
    longNumeralsOf es = [] → ExprTree.AllReadableWith LiteralTree.IsShort (Expr.trees (s.exprs es))
  | [], _, _ => trivial
  | e :: es, hr, hl => by
      rw [longNumeralsOf, List.append_eq_nil_iff] at hl
      exact ⟨readable_expr e hr.1 hl.1, readable_exprs es hr.2 hl.2⟩

end

mutual

theorem longNumerals_unmarked : ∀ e : ExprTree, longNumerals e.unmarked = longNumerals e
  | .literal _ (.string _) | .literal _ (.integer _) | .literal _ (.boolean _) | .literal _ (.real _) => rfl
  | .name .. => rfl
  | .call _ _ args => longNumeralsOf_unmarkedAll args
  | .ros _ _ _ args => longNumeralsOf_unmarkedAll args

theorem longNumeralsOf_unmarkedAll : ∀ es : List ExprTree,
    longNumeralsOf (ExprTree.unmarkedAll es) = longNumeralsOf es
  | [] => rfl
  | e :: es => by
      simp only [ExprTree.unmarkedAll, longNumeralsOf, longNumerals_unmarked e, longNumeralsOf_unmarkedAll es]

end

mutual

theorem longNumerals_of_isShort : ∀ e : ExprTree, e.ReadableWith LiteralTree.IsShort → longNumerals e = []
  | .literal _ (.string _), _ | .literal _ (.boolean _), _ | .literal _ (.real _), _ => rfl
  | .literal _ (.integer _), hr => if_neg (Nat.not_lt.2 hr)
  | .name .., _ => rfl
  | .call _ _ args, hr => longNumeralsOf_of_isShort args hr.2.2
  | .ros _ _ _ args, hr => longNumeralsOf_of_isShort args hr

theorem longNumeralsOf_of_isShort : ∀ es : List ExprTree, ExprTree.AllReadableWith LiteralTree.IsShort es →
    longNumeralsOf es = []
  | [], _ => rfl
  | e :: es, hr => by
      rw [longNumeralsOf, longNumerals_of_isShort e hr.1, longNumeralsOf_of_isShort es hr.2]
      rfl

end

theorem declaredLongNumerals_unmarked (d : Declaration) : declaredLongNumerals d.unmarked = declaredLongNumerals d := by
  cases d with
  | function mark name ps body =>
      have hb := longNumeralsOf_unmarkedAll body
      rwa [ExprTree.unmarkedAll_eq_map] at hb
  | includes file | robot mark name | type mark name | method mark name ps => rfl

theorem read_eq_ok_iff {α : Type} {s : Source} {p : Parser (List α)} {as : List α} :
    s.read p = .ok as ↔ (∃ r, p.run s.text = some (as, r)) ∧ as ≠ [] := by
  rw [← Parser.read_eq_ok_iff, read]
  rcases p.read s.text with e | _ | ⟨a, bs⟩
  · simp
  · simp only [Except.ok.injEq, reduceCtorEq, false_iff, not_and]
    exact fun h hne => absurd h.symm hne
  · simp only [Except.ok.injEq]
    exact ⟨fun h => ⟨h, h ▸ List.cons_ne_nil _ _⟩, And.left⟩

/-- The declarations of a text are those that the grammar finds, if there are any and no numeral is
too long. -/
theorem program_eq_ok_iff {s : Source} {ds : List Declaration} :
    s.program = .ok ds ↔
      (∃ r, Grammar.program.run s.text = some (ds, r)) ∧ ds ≠ [] ∧ ds.flatMap declaredLongNumerals = [] := by
  rw [← and_assoc, ← read_eq_ok_iff, program]
  cases s.read Grammar.program with
  | error e => simp
  | ok es =>
      dsimp only
      split <;> simp only [Except.ok.injEq, reduceCtorEq, false_iff, not_and] <;> grind

theorem model_eq_ok_iff {s : Source} {imported : Imported} {m : Model} :
    s.model imported = .ok m ↔
      ∃ ds, s.program = .ok ds ∧ m = ds.foldl (Model.add s) (.besides imported) := by
  rw [model]
  cases s.program <;> simp [Except.map, eq_comm]

theorem isRead_parameter {p : ParameterTree} (hp : p.IsProper) : (s.parameter p).IsRead := by
  refine ⟨hp.1, ?_⟩
  show (s.type p.typeMark p.typeName).IsRead
  rw [type]
  split
  · trivial
  next hn => exact ⟨hp.2, hn⟩

end Source

namespace Model.IsRead

variable {m : Model} {s : Source}

theorem besides (imported : Imported) : (Model.besides imported).IsRead := by
  constructor <;> intro x hx <;> cases hx

theorem add (h : m.IsRead) {d : Declaration} (hd : d.IsProper) (hl : Source.declaredLongNumerals d = []) :
    (m.add s d).IsRead := by
  cases d with
  | includes file => exact { h with }
  | robot mark name =>
      exact { h with robots := List.forall_mem_append.2 ⟨h.robots, List.forall_mem_singleton.2 hd⟩ }
  | type mark name =>
      exact { h with types := List.forall_mem_append.2 ⟨h.types, List.forall_mem_singleton.2 hd⟩ }
  | function mark name ps body =>
      obtain ⟨hn, hps, hb⟩ := hd
      refine { h with functions := List.forall_mem_append.2 ⟨h.functions, List.forall_mem_singleton.2 ?_⟩ }
      exact
        { name := hn
          parameters := List.forall_mem_map.2 fun p hp => s.isRead_parameter (hps p hp)
          unbound := s.shapes_exprs body
          readable := s.readable_exprs body (ExprTree.allReadableWith_iff.2 hb) hl }
  | method mark name ps =>
      refine { h with methods := List.forall_mem_append.2 ⟨h.methods, List.forall_mem_singleton.2 ?_⟩ }
      exact ⟨hd.1, List.forall_mem_map.2 fun p hp => s.isRead_parameter (hd.2 p hp)⟩

theorem addAll (h : m.IsRead) {ds : List Declaration} (hds : ∀ d ∈ ds, d.IsProper)
    (hl : ds.flatMap Source.declaredLongNumerals = []) : (ds.foldl (Model.add s) m).IsRead := by
  induction ds generalizing m with
  | nil => exact h
  | cons d ds ih =>
      rw [List.flatMap_cons, List.append_eq_nil_iff] at hl
      have hd := h.add (s := s) (hds d List.mem_cons_self) hl.1
      exact ih hd (fun e he => hds e (List.mem_cons_of_mem _ he)) hl.2

end Model.IsRead

theorem Source.isRead_of_model {s : Source} {imported : Imported} {m : Model} (h : s.model imported = .ok m) :
    m.IsRead := by
  obtain ⟨ds, hds, rfl⟩ := model_eq_ok_iff.1 h
  obtain ⟨⟨r, hrun⟩, -, hlong⟩ := program_eq_ok_iff.1 hds
  exact (Model.IsRead.besides imported).addAll (isProper_of_run_program hrun) hlong

end RobotLang
