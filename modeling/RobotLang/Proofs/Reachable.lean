import RobotLang.Proofs.Growth

namespace RobotLang

open Files Grammar Relation

/-- The models that runs of edits lead to, where every edit satisfies `A` in the model that it is
applied to and no edit brings in a bound body. The files may change from edit to edit. -/
inductive ReachableBy (A : Model → Edit → Prop) : Model → Prop
  | empty : ReachableBy A .empty
  | edit {m : Model} (h : ReachableBy A m) (t : Tree) (e : Edit) (hb : Expr.Unbound e.body)
      (ha : A m e) : ReachableBy A (e.apply t m).1

abbrev Reachable : Model → Prop := ReachableBy fun _ _ => True

theorem ReachableBy.changes {A : Model → Edit → Prop} {T : Model → ParamType → Prop}
    (hr : Model.WritesFound T) (hA : ∀ m e, A m e → ∀ type ∈ e.types, T m type) {m : Model}
    (h : ReachableBy A m) : Changes T .empty m := by
  induction h with
  | empty => exact .refl
  | edit _ t e hb ha ih => exact ih.trans (Edit.changes_apply hr t _ e hb (hA _ e ha))

/-- What holds of the empty model and is kept by every elementary change holds of every model that
can be reached. -/
theorem ReachableBy.invariant {A : Model → Edit → Prop} {T : Model → ParamType → Prop}
    {P : Model → Prop} (hr : Model.WritesFound T) (hA : ∀ m e, A m e → ∀ type ∈ e.types, T m type)
    (h₀ : P .empty) (hP : ∀ {m n}, Change T m n → P m → P n) {m : Model} (h : ReachableBy A m) : P m :=
  (h.changes hr hA).keeps hP h₀

theorem isNumbered_empty : Model.empty.IsNumbered := by
  constructor <;> intro i e h <;> simp [Model.empty, Model.besides, Imported.empty] at h

theorem Reachable.isNumbered {m : Model} (h : Reachable m) : m.IsNumbered :=
  ReachableBy.invariant (T := fun _ _ => True) (fun _ _ _ _ => trivial) (fun _ _ _ _ _ => trivial)
    isNumbered_empty Change.isNumbered h

namespace Source

variable (s : Source)

mutual

theorem occurrences_expr : ∀ e : ExprTree, ∀ o ∈ (s.expr e).occurrences, o.target = none
  | .literal _ _ => by simp [expr, Expr.occurrences]
  | .name _ _ => by simp [expr, Expr.occurrences]
  | .call _ _ args => by
      intro o ho
      rw [expr, Expr.occurrences, List.mem_cons] at ho
      rcases ho with rfl | ho
      · rfl
      · exact occurrencesOf_exprs args o ho
  | .ros _ _ _ args => by
      intro o ho
      exact occurrencesOf_exprs args o ho

theorem occurrencesOf_exprs : ∀ es : List ExprTree, Expr.Unbound (s.exprs es)
  | [] => by simp [exprs, Expr.Unbound, Expr.occurrencesOf]
  | e :: es => by
      intro o ho
      rw [exprs, Expr.occurrencesOf, List.mem_append] at ho
      rcases ho with ho | ho
      · exact occurrences_expr e o ho
      · exact occurrencesOf_exprs es o ho

end

end Source

section

variable {α : Type} {r : Except Error α}

theorem exists_of_isOk (h : r.isOk = true) : ∃ a, r = .ok a := by
  cases r with
  | error e => cases h
  | ok a => exact ⟨a, rfl⟩

theorem exists_of_not_isOk (h : r.isOk = false) : ∃ e, r = .error e := by
  cases r with
  | error e => exact ⟨e, rfl⟩
  | ok a => cases h

theorem exists_ok_of_any {P : α → Prop} [DecidablePred P]
    (h : (r.toOption.any fun a => decide (P a)) = true) : ∃ a, r = .ok a ∧ P a := by
  cases r with
  | error e => cases h
  | ok a => exact ⟨a, rfl, of_decide_eq_true h⟩

end

namespace Model

variable {m : Model} {imported after : Imported}

theorem exists_model_of_any {r : Except Error Model × Imported} {P : Model → Imported → Prop}
    [∀ m after, Decidable (P m after)] (h : (r.1.toOption.any fun m => decide (P m r.2)) = true) :
    ∃ m after, r = (.ok m, after) ∧ P m after := by
  obtain ⟨m, hm, hP⟩ := exists_ok_of_any h
  exact ⟨m, r.2, Prod.ext hm rfl, hP⟩

theorem parseSource_eq_ok_iff {t : Tree} {base : String} {s : Source} :
    parseSource t base s imported = (.ok m, after) ↔
      ∃ n, s.model imported = .ok n ∧ n.loadIncludes t base = (m, none) ∧ m.imported = after := by
  delta parseSource
  cases s.model imported with
  | error e => simp
  | ok n => rcases hl : n.loadIncludes t base with ⟨k, _ | e⟩ <;> simp [hl]; grind

theorem parseSource_of_error {t : Tree} {base : String} {s : Source} {e : Error}
    (h : s.model imported = .error e) : parseSource t base s imported = (.error e, imported) := by
  delta parseSource
  rw [h]

theorem checked_eq_ok_iff {stages : List Stage} {parsed : Except Error Model × Imported} :
    checked stages parsed = (.ok m, after) ↔
      ∃ n, parsed = (.ok n, after) ∧ Stage.runAll stages n = (m, none) := by
  rcases parsed with ⟨_ | n, imported⟩
  · simp [checked]
  · rcases hr : Stage.runAll stages n with ⟨k, _ | e⟩ <;> simp [checked, hr, Prod.ext_iff]; grind

end Model

namespace Reachable

variable {m : Model}

theorem applyAll (h : Reachable m) (t : Tree) (edits : List Edit) (hb : ∀ e ∈ edits, Expr.Unbound e.body) :
    Reachable (Edit.applyAll t m edits) := by
  induction edits generalizing m with
  | nil => exact h
  | cons e edits ih =>
      obtain ⟨he, hedits⟩ := List.forall_mem_cons.1 hb
      exact ih (h.edit t e he trivial) hedits

theorem add (h : Reachable m) (s : Source) (d : Declaration) : Reachable (m.add s d) := by
  let t : Tree := ⟨.root, []⟩
  cases d with
  | includes file => exact h.edit t (.addInclude file) Expr.unbound_nil trivial
  | robot mark name => exact h.edit t (.addRobot name _) Expr.unbound_nil trivial
  | type mark name => exact h.edit t (.addType name _) Expr.unbound_nil trivial
  | function mark name ps body =>
      exact h.edit t (.addFunction name _ _ _) (s.occurrencesOf_exprs body) trivial
  | method mark name ps => exact h.edit t (.addMethod name _ _) Expr.unbound_nil trivial

theorem addAll (h : Reachable m) (s : Source) (ds : List Declaration) :
    Reachable (ds.foldl (Model.add s) m) := by
  induction ds generalizing m with
  | nil => exact h
  | cons d ds ih => exact ih (h.add s d)

variable {imported : Imported}

theorem ofSource (h : Reachable (.besides imported)) {s : Source} (hs : s.model imported = .ok m) :
    Reachable m := by
  rw [Source.model] at hs
  cases hp : s.program with
  | error e => simp [hp, Except.map] at hs
  | ok ds =>
      simp only [hp, Except.map, Except.ok.injEq] at hs
      exact hs ▸ h.addAll s ds

theorem parseSource (h : Reachable (.besides imported)) {t : Tree} {base : String} {s : Source}
    {after : Imported} (hp : Model.parseSource t base s imported = (.ok m, after)) : Reachable m := by
  obtain ⟨n, hs, hl, -⟩ := Model.parseSource_eq_ok_iff.1 hp
  have hn : Reachable (n.loadIncludes t base).1 :=
    (h.ofSource hs).edit t (.loadIncludes base) Expr.unbound_nil trivial
  rw [hl] at hn
  exact hn

theorem parseText (h : Reachable (.besides imported)) {t : Tree} {base text : String} {after : Imported}
    (hp : Model.parseText t base text imported = (.ok m, after)) : Reachable m :=
  h.parseSource hp

theorem runAll (h : Reachable m) {stages : List Stage} {n : Model} (hr : Stage.runAll stages m = (n, none)) :
    Reachable n := by
  have hn : Reachable (Stage.runAll stages m).1 :=
    h.edit ⟨.root, []⟩ (.run stages) Expr.unbound_nil trivial
  rw [hr] at hn
  exact hn

end Reachable

end RobotLang
