import RobotLang.Proofs.Contents
import RobotLang.Proofs.Passing
import RobotLang.Proofs.ReadModels

namespace RobotLang

open Grammar Number

namespace Expr

mutual

theorem tree_shape : ∀ e : Expr, e.shape.tree = e.tree
  | literal .. | reference .. | abstract => rfl
  | call _ args _ _ => by simp only [shape, tree, trees_shapes args]
  | ros _ _ args _ => by simp only [shape, tree, trees_shapes args]

theorem trees_shapes : ∀ es : List Expr, trees (shapes es) = trees es
  | [] => rfl
  | e :: es => by simp only [shapes, trees, tree_shape e, trees_shapes es]

end

mutual

theorem readable_tree : ∀ e : Expr, (∀ l ∈ e.literals, l.isReal = false) →
    e.tree.ReadableWith LiteralTree.IsShort → e.tree.Readable
  | literal (.string _) _, _, _ | literal (.boolean _) _, _, _ | literal (.integer _) _, _, _ => trivial
  | literal (.real _) _, hl, _ => nomatch hl _ List.mem_cons_self
  | reference .., _, hr | abstract, _, hr => hr
  | call _ args _ _, hl, hr => ⟨hr.1, hr.2.1, readable_trees args hl hr.2.2⟩
  | ros _ _ args _, hl, hr => readable_trees args (List.forall_mem_cons.1 hl).2 hr

theorem readable_trees : ∀ es : List Expr, (∀ l ∈ literalsOf es, l.isReal = false) →
    ExprTree.AllReadableWith LiteralTree.IsShort (trees es) →
    ExprTree.AllReadableWith LiteralTree.HasLexemes (trees es)
  | [], _, _ => trivial
  | e :: es, hl, hr => by
      obtain ⟨he, hes⟩ := List.forall_mem_append.1 hl
      exact ⟨readable_tree e he hr.1, readable_trees es hes hr.2⟩

end

mutual

theorem literals_of_plain : ∀ e : Expr, e.Plain →
    ∀ l ∈ e.literals, l.isReal = false ∧ ∀ v, l = .string v → '\\' ∉ v.toList
  | literal (.string _) _, hp => List.forall_mem_singleton.2 ⟨rfl, fun _ hv => Literal.string.inj hv ▸ hp⟩
  | literal (.boolean _) _, _ | literal (.integer _) _, _ => List.forall_mem_singleton.2 ⟨rfl, nofun⟩
  | literal (.real _) _, hp => hp.elim
  | reference .., _ | abstract, _ => List.forall_mem_nil _
  | call _ args _ _, hp => literalsOf_of_plain args hp
  | ros _ _ args _, hp =>
      List.forall_mem_cons.2 ⟨⟨rfl, fun _ hv => Literal.string.inj hv ▸ hp.1⟩, literalsOf_of_plain args hp.2⟩

theorem literalsOf_of_plain : ∀ es : List Expr, AllPlain es →
    ∀ l ∈ literalsOf es, l.isReal = false ∧ ∀ v, l = .string v → '\\' ∉ v.toList
  | [], _ => List.forall_mem_nil _
  | e :: es, hp => List.forall_mem_append.2 ⟨literals_of_plain e hp.1, literalsOf_of_plain es hp.2⟩

end

section Readable

variable {ok : LiteralTree → Prop}

mutual

theorem isWritable_of_readable : ∀ e : Expr, e.tree.ReadableWith ok → e.isWritable = true
  | literal .., _ | reference .., _ => rfl
  | abstract, hr => absurd hr.1 (by decide)
  | call _ args _ _, hr => areWritable_of_readable args hr.2.2
  | ros _ _ args _, hr => areWritable_of_readable args hr

theorem areWritable_of_readable : ∀ es : List Expr, ExprTree.AllReadableWith ok (trees es) → areWritable es = true
  | [], _ => rfl
  | e :: es, hr => by
      rw [areWritable, isWritable_of_readable e hr.1, areWritable_of_readable es hr.2]
      rfl

end

theorem literal_tree (v : Literal) : Source.literal v.tree = v := by
  cases v with
  | integer n => exact congrArg Literal.integer (Numeral.value_ofInt n)
  | string s | boolean b | real x => rfl

mutual

theorem expr_tree (s : Source) : ∀ e : Expr, e.tree.ReadableWith ok → (s.expr e.tree).unplaced = e.shape.unplaced
  | literal v _, _ => congrArg (literal · none) (literal_tree v)
  | reference .., _ => rfl
  | abstract, hr => absurd hr.1 (by decide)
  | call _ args _ _, hr => by simp only [tree, Source.expr, shape, unplaced, exprs_trees s args hr.2.2]
  | ros _ _ args _, hr => by simp only [tree, Source.expr, shape, unplaced, exprs_trees s args hr]

theorem exprs_trees (s : Source) : ∀ es : List Expr, ExprTree.AllReadableWith ok (trees es) →
    unplacedAll (s.exprs (trees es)) = unplacedAll (shapes es)
  | [], _ => rfl
  | e :: es, hr => by
      simp only [trees, Source.exprs, shapes, unplacedAll, expr_tree s e hr.1, exprs_trees s es hr.2]

end

end Readable

end Expr

/-! ### What is written for a model -/

namespace Contents

theorem ofDeclarations_declarations (m : Model) :
    ofDeclarations m.declarations =
      ⟨m.includes, m.robots.map (·.name), m.types.map (·.name),
        m.functions.map fun f => (f.name, f.parameters.map fun p => (Source.nowhere.parameter (m.parameterTree p)).unplaced,
          Expr.unplacedAll (Source.nowhere.exprs (Expr.trees f.body))),
        m.methods.map fun f => (f.name, f.parameters.map fun p => (Source.nowhere.parameter (m.parameterTree p)).unplaced)⟩ := by
  have hnil : ∀ (α β : Type) (as : List α), as.flatMap (fun _ => ([] : List β)) = [] := fun α β as =>
    List.flatMap_eq_nil_iff.2 fun _ _ => rfl
  rw [ofDeclarations_eq]
  simp [Model.declarations, List.flatMap_map, ofDeclaration, empty, hnil, ← List.map_eq_flatMap, Function.comp_def]

end Contents

theorem Model.longNumerals_of_readable {m : Model}
    (h : ∀ f ∈ m.functions, ExprTree.AllReadableWith LiteralTree.IsShort (Expr.trees f.body)) :
    m.declarations.flatMap Source.declaredLongNumerals = [] := by
  refine List.flatMap_eq_nil_iff.2 ?_
  simp only [declarations, List.forall_mem_append, List.forall_mem_map]
  exact ⟨⟨⟨⟨fun _ _ => rfl, fun _ _ => rfl⟩, fun _ _ => rfl⟩,
    fun f hf => Source.longNumeralsOf_of_isShort _ (h f hf)⟩, fun _ _ => rfl⟩

/-! ### What has passed the stages -/

namespace Model.Passes

variable {m n : Model}

theorem typeText?_eq (h : m.Passes n) (type : ParamType) : n.typeText? type = m.typeText? type :=
  typeText?_congr h.types h.imported type

theorem typeText_typed (h : m.Passes n) (hm : m.IsNumbered) {p : Parameter} (hp : p ∈ m.parameters)
    {name : String} {position : Option Position} (hty : p.type = .unresolved name position) :
    n.typeText (m.typed p).type = name := by
  obtain ⟨type, -, htyped, htext⟩ := typed_eq_of_typable hm hty (h.typable p hp)
  rw [← h.typeText?_eq, typeText?] at htext
  split at htext
  · rw [htyped]
    exact Option.some.inj htext
  · cases htext

theorem typed_of_boolean {p : Parameter} (hty : p.type = .boolean) : m.typed p = p := by
  simp only [typed, hty]

theorem name_typed (m : Model) (p : Parameter) : (m.typed p).name = p.name := by
  rw [typed]
  split <;> rfl

theorem isIdentifier_typeText (h : m.Passes n) (hm : m.IsNumbered) {p : Parameter} (hp : p ∈ m.parameters)
    (hr : p.IsRead) : IsIdentifier (n.typeText (m.typed p).type) := by
  have hread := hr.2
  cases hty : p.type with
  | boolean =>
      rw [typed_of_boolean hty, hty]
      exact (by decide : IsIdentifier "bool")
  | unresolved name position =>
      rw [hty] at hread
      rw [h.typeText_typed hm hp hty]
      exact hread.1
  | undefined | skillset id | imported id | declared id | abstract =>
      rw [hty] at hread
      exact hread.elim

theorem parameter_typed (h : m.Passes n) (hm : m.IsNumbered) {p : Parameter} (hp : p ∈ m.parameters)
    (hr : p.IsRead) : (Source.nowhere.parameter (n.parameterTree (m.typed p))).unplaced = p.unplaced := by
  have hread := hr.2
  rw [Source.parameter, parameterTree, Parameter.unplaced, Parameter.unplaced]
  simp only [name_typed, Parameter.mk.injEq, and_true, true_and]
  cases hty : p.type with
  | boolean =>
      rw [typed_of_boolean hty, hty]
      rfl
  | unresolved name position =>
      rw [hty] at hread
      rw [h.typeText_typed hm hp hty, Source.type, if_neg hread.2]
      rfl
  | undefined | skillset id | imported id | declared id | abstract =>
      rw [hty] at hread
      exact hread.elim

theorem shapes_bindFunction {scope : Scope} {f : Function} (hf : f.IsRead) (ps : List Parameter) :
    Expr.shapes (bindFunction scope { f with parameters := ps }).1.body = f.body :=
  (Expr.shapes_bindAll scope ps f.body).trans hf.unbound

theorem trees_bindFunction {scope : Scope} {f : Function} (hf : f.IsRead) (ps : List Parameter) :
    Expr.trees (bindFunction scope { f with parameters := ps }).1.body = Expr.trees f.body := by
  rw [← Expr.trees_shapes, shapes_bindFunction hf]

theorem read_of_function (hr : m.IsRead) {f : Function} (hf : f ∈ m.functions) :
    ∀ p ∈ f.parameters, p ∈ m.parameters ∧ p.IsRead := fun p hp =>
  ⟨List.mem_append_left _ (List.mem_flatMap.2 ⟨f, hf, hp⟩), (hr.functions f hf).parameters p hp⟩

theorem read_of_method (hr : m.IsRead) {f : Method} (hf : f ∈ m.methods) :
    ∀ p ∈ f.parameters, p ∈ m.parameters ∧ p.IsRead := fun p hp =>
  ⟨List.mem_append_right _ (List.mem_flatMap.2 ⟨f, hf, hp⟩), (hr.methods f hf).parameters p hp⟩

/-- The contents of what is written are those of the model that was read. -/
theorem contents_declarations (h : m.Passes n) (hm : m.IsNumbered) (hr : m.IsRead) :
    Contents.ofDeclarations n.declarations = m.contents := by
  have hps : ∀ ps : List Parameter, (∀ p ∈ ps, p ∈ m.parameters ∧ p.IsRead) →
      (ps.map m.typed).map (fun p => (Source.nowhere.parameter (n.parameterTree p)).unplaced) =
        ps.map Parameter.unplaced := by
    intro ps hps
    rw [List.map_map]
    exact List.map_congr_left fun p hp => h.parameter_typed hm (hps p hp).1 (hps p hp).2
  obtain ⟨scope, hfunctions⟩ := h.functions
  rw [Contents.ofDeclarations_declarations, contents, h.includes, h.robots, h.types, hfunctions, h.methods,
    List.map_map, List.map_map]
  congr 1
  · refine List.map_congr_left fun f hf => ?_
    have hread := hr.functions f hf
    have hbody : Expr.unplacedAll (Source.nowhere.exprs (Expr.trees f.body)) = Expr.unplacedAll f.body := by
      rw [Expr.exprs_trees Source.nowhere f.body hread.readable, hread.unbound]
    have hparameters := hps f.parameters (read_of_function hr hf)
    simp only [Function.comp_apply, trees_bindFunction hread, hbody, Function.content]
    exact congrArg (f.name, ·, Expr.unplacedAll f.body) hparameters
  · refine List.map_congr_left fun f hf => ?_
    exact congrArg (f.name, ·) (hps f.parameters (read_of_method hr hf))

theorem parametersPrintable (h : m.Passes n) (hm : m.IsNumbered) {ps : List Parameter}
    (hps : ∀ p ∈ ps, p ∈ m.parameters ∧ p.IsRead) : n.ParametersPrintable (ps.map m.typed) := by
  refine List.forall_mem_map.2 fun p hp => ⟨?_, h.isIdentifier_typeText hm (hps p hp).1 (hps p hp).2⟩
  rw [name_typed]
  exact (hps p hp).2.1

theorem functions_written (h : m.Passes n) (hm : m.IsNumbered) (hr : m.IsRead) :
    ∀ f ∈ n.functions, IsIdentifier f.name ∧ n.ParametersPrintable f.parameters ∧
      ExprTree.AllReadableWith LiteralTree.IsShort (Expr.trees f.body) := by
  obtain ⟨scope, hfunctions⟩ := h.functions
  intro g hg
  rw [hfunctions] at hg
  obtain ⟨f, hf, rfl⟩ := List.mem_map.1 hg
  have hread := hr.functions f hf
  refine ⟨hread.name, h.parametersPrintable hm (read_of_function hr hf), ?_⟩
  rw [trees_bindFunction hread]
  exact hread.readable

theorem methods_written (h : m.Passes n) (hm : m.IsNumbered) (hr : m.IsRead) :
    ∀ f ∈ n.methods, IsIdentifier f.name ∧ n.ParametersPrintable f.parameters := by
  intro g hg
  rw [h.methods] at hg
  obtain ⟨f, hf, rfl⟩ := List.mem_map.1 hg
  exact ⟨(hr.methods f hf).name, h.parametersPrintable hm (read_of_method hr hf)⟩

/-- What has been read, and has passed the stages, has names and bodies that can be written, but for real
numbers. -/
theorem spellable (h : m.Passes n) (hm : m.IsNumbered) (hr : m.IsRead)
    (hreals : ∀ l ∈ n.literals, l.isReal = false) : n.Spellable := by
  refine ⟨h.robots ▸ hr.robots, h.types ▸ hr.types, fun f hf => ?_, h.methods_written hm hr⟩
  obtain ⟨hname, hps, hbody⟩ := h.functions_written hm hr f hf
  refine ⟨hname, hps, Expr.readable_trees _ ?_ hbody⟩
  exact fun l hl => hreals l (List.mem_flatMap.2 ⟨f, hf, hl⟩)

theorem printable (h : m.Passes n) (hm : m.IsNumbered) (hr : m.IsRead)
    (hincludes : ∀ file ∈ n.includes, '\\' ∉ file.toList ∧ '"' ∉ file.toList)
    (hbodies : ∀ f ∈ n.functions, Expr.AllPlain f.body) : n.Printable := by
  have hliterals : ∀ l ∈ n.literals, l.isReal = false ∧ ∀ v, l = .string v → '\\' ∉ v.toList := by
    intro l hl
    obtain ⟨f, hf, hl⟩ := List.mem_flatMap.1 hl
    exact Expr.literalsOf_of_plain f.body (hbodies f hf) l hl
  refine ⟨h.spellable hm hr fun l hl => (hliterals l hl).1, fun file hf => (hincludes file hf).2, ?_⟩
  refine quotable_of_not_mem (List.forall_mem_append.2 ⟨fun file hf => (hincludes file hf).1, fun v hv => ?_⟩)
  obtain ⟨l, hl, hv⟩ := List.mem_filterMap.1 hv
  cases l with
  | string w => exact (hliterals _ hl).2 v (congrArg Literal.string (Option.some.inj hv))
  | boolean b | integer n | real x => cases hv

theorem longNumerals_declarations (h : m.Passes n) (hm : m.IsNumbered) (hr : m.IsRead) :
    n.declarations.flatMap Source.declaredLongNumerals = [] :=
  longNumerals_of_readable fun f hf => (h.functions_written hm hr f hf).2.2

end Model.Passes

namespace Model

variable {m n : Model}

theorem parametersWritable_of_ne {ps : List Parameter} (h : ∀ p ∈ ps, p.type ≠ .abstract) :
    parametersWritable ps = true := by
  rw [parametersWritable, List.all_eq_true]
  intro p hp
  cases hty : p.type with
  | abstract => exact absurd hty (h p hp)
  | undefined | boolean | unresolved name position | skillset id | imported id | declared id => rfl

theorem text?_of_readable {ok : LiteralTree → Prop}
    (hf : ∀ f ∈ m.functions, (∀ p ∈ f.parameters, p.type ≠ .abstract) ∧
      ExprTree.AllReadableWith ok (Expr.trees f.body))
    (hm : ∀ f ∈ m.methods, ∀ p ∈ f.parameters, p.type ≠ .abstract) : m.text? = some m.text := by
  have hw : m.isWritable = true := by
    rw [isWritable, Bool.and_eq_true, List.all_eq_true, List.all_eq_true]
    refine ⟨fun f hmem => ?_, fun f hmem => parametersWritable_of_ne (hm f hmem)⟩
    rw [parametersWritable_of_ne (hf f hmem).1, Expr.areWritable_of_readable _ (hf f hmem).2]
    rfl
  rw [text?, if_pos hw]

theorem ParametersPrintable.ne_abstract {ps : List Parameter} (h : m.ParametersPrintable ps) :
    ∀ p ∈ ps, p.type ≠ .abstract := by
  intro p hp hty
  have ht := (h p hp).2
  rw [hty] at ht
  exact absurd ht (by decide : ¬ IsIdentifier "")

theorem Spellable.text?_eq (h : m.Spellable) : m.text? = some m.text :=
  text?_of_readable (fun f hf => ⟨(h.functions f hf).2.1.ne_abstract, (h.functions f hf).2.2⟩)
    fun f hf => (h.methods f hf).2.ne_abstract

theorem IsRead.text?_eq (h : m.IsRead) : m.text? = some m.text := by
  have hne : ∀ p : Parameter, p.IsRead → p.type ≠ .abstract := by
    intro p hp hty
    have ht := hp.2
    rwa [hty] at ht
  exact text?_of_readable
    (fun f hf => ⟨fun p hp => hne p ((h.functions f hf).parameters p hp), (h.functions f hf).readable⟩)
    fun f hf p hp => hne p ((h.methods f hf).parameters p hp)

/-- Marks and positions aside, the declarations of a printable model are what its text declares. -/
theorem Printable.program_text (h : n.Printable) (hne : Contents.ofDeclarations n.declarations ≠ .empty)
    (hl : n.declarations.flatMap Source.declaredLongNumerals = []) :
    ∃ ds, (Source.mk none n.text.toList).program = .ok ds ∧
      ds.map Declaration.unmarked = n.declarations.map Declaration.unmarked := by
  have hreadable : ∀ d ∈ n.declarations.map (fun d => (endsWithSemicolon d, d)), d.2.Readable := by
    simp only [declarations, List.forall_mem_map, List.forall_mem_append]
    refine ⟨⟨⟨⟨fun _ _ => trivial, fun _ _ => trivial⟩, fun _ _ => trivial⟩, fun f hf => ?_⟩, fun _ _ => trivial⟩
    obtain ⟨-, -, hbody⟩ := h.functions f hf
    exact ExprTree.allReadableWith_iff.1 hbody
  obtain ⟨ds, hrun, hmap⟩ := run_program_of_layout hreadable (layout_text h)
  rw [List.map_map] at hmap
  have hlong : ds.flatMap Source.declaredLongNumerals = n.declarations.flatMap Source.declaredLongNumerals := by
    have hu := congrArg (List.flatMap Source.declaredLongNumerals) hmap
    simpa only [List.flatMap_map, Function.comp_def, Source.declaredLongNumerals_unmarked] using hu
  refine ⟨ds, Source.program_eq_ok_iff.2 ⟨⟨[], hrun⟩, ?_, hlong.trans hl⟩, hmap⟩
  rintro rfl
  rw [List.map_eq_nil_iff.1 hmap.symm] at hne
  exact hne rfl

/-! ### Texts of the same contents -/

section Texts

variable {t : Files.Tree} {base text text' : String} {imported after : Imported}

theorem parseText_eq_ok_iff :
    parseText t base text imported = (.ok m, after) ↔
      ∃ ds, (Source.mk none text.toList).program = .ok ds ∧
        (ds.foldl (Model.add ⟨none, text.toList⟩) (.besides imported)).loadIncludes t base = (m, none) ∧
        m.imported = after := by
  rw [parseText, parseSource_eq_ok_iff]
  simp only [Source.model_eq_ok_iff]
  grind

theorem eq_of_loadIncludes (h : m.loadIncludes t base = (n, none)) : n = { m with imported := n.imported } := by
  rw [loadIncludes, Prod.mk.injEq] at h
  rw [← h.1]

theorem contents_of_parseText {ds : List Declaration} (hds : (Source.mk none text.toList).program = .ok ds)
    (h : parseText t base text imported = (.ok m, after)) : m.contents = Contents.ofDeclarations ds := by
  obtain ⟨ds', hds', hload, -⟩ := parseText_eq_ok_iff.1 h
  obtain rfl := Except.ok.inj (hds.symm.trans hds')
  rw [eq_of_loadIncludes hload]
  exact (contents_foldl _ ds _).trans (Contents.empty_append _)

theorem isRead_of_parseSource {s : Source} (h : parseSource t base s imported = (.ok m, after)) : m.IsRead := by
  obtain ⟨n, hn, hload, -⟩ := parseSource_eq_ok_iff.1 h
  -- Loading files leaves everything but the imported entries as it is.
  rw [eq_of_loadIncludes hload]
  exact { Source.isRead_of_model hn with }

theorem isRead_of_parseText (h : parseText t base text imported = (.ok m, after)) :
    m.IsRead ∧ m.contents ≠ .empty := by
  refine ⟨isRead_of_parseSource h, ?_⟩
  obtain ⟨ds, hds, -⟩ := parseText_eq_ok_iff.1 h
  obtain ⟨-, hne, -⟩ := Source.program_eq_ok_iff.1 hds
  rw [contents_of_parseText hds h]
  exact Contents.ofDeclarations_ne_empty hne

theorem add_rosCalls (s : Source) (ds : List Declaration) (m : Model) :
    (ds.foldl (Model.add s) m).rosCalls = m.rosCalls := by
  induction ds generalizing m with
  | nil => rfl
  | cons d ds ih =>
      rw [List.foldl_cons, ih]
      cases d <;> rfl

theorem add_imported (s : Source) (ds : List Declaration) (m : Model) :
    (ds.foldl (Model.add s) m).imported = m.imported := by
  induction ds generalizing m with
  | nil => rfl
  | cons d ds ih =>
      rw [List.foldl_cons, ih]
      cases d <;> rfl

theorem addAll_imported (s : Source) (ds : List Declaration) (m : Model) (imported : Imported) :
    ds.foldl (Model.add s) { m with imported } = { ds.foldl (Model.add s) m with imported } := by
  induction ds generalizing m with
  | nil => rfl
  | cons d ds ih =>
      have hd : ({ m with imported }).add s d = { m.add s d with imported } := by cases d <;> rfl
      rw [List.foldl_cons, List.foldl_cons, hd, ih]

theorem unplaced_eq_of_declarations {s s' : Source} {ds es : List Declaration} (imported : Imported)
    (h : Contents.ofDeclarations es = Contents.ofDeclarations ds) :
    (es.foldl (Model.add s') (.besides imported)).unplaced = (ds.foldl (Model.add s) (.besides imported)).unplaced := by
  have hempty : Reachable .empty := .empty
  have hu : (es.foldl (Model.add s') .empty).unplaced = (ds.foldl (Model.add s) .empty).unplaced := by
    refine unplaced_eq_of_contents (hempty.addAll s' es).isNumbered (hempty.addAll s ds).isNumbered ?_ ?_ ?_
    · rw [contents_foldl, contents_foldl, h]
    · rw [add_rosCalls, add_rosCalls]
    · rw [add_imported, add_imported]
  have hb : ∀ (s : Source) (ds : List Declaration), ds.foldl (Model.add s) (.besides imported) =
      { ds.foldl (Model.add s) .empty with imported } := fun s ds => addAll_imported s ds .empty imported
  rw [hb, hb]
  exact congrArg (fun n : Model => { n with imported }) hu

theorem parseText_of_contents (h : parseText t base text imported = (.ok m, after)) {es : List Declaration}
    (hes : (Source.mk none text'.toList).program = .ok es) (hsame : Contents.ofDeclarations es = m.contents) :
    ∃ m', parseText t base text' imported = (.ok m', after) ∧ m'.unplaced = m.unplaced := by
  obtain ⟨ds, hds, hload, himported⟩ := parseText_eq_ok_iff.1 h
  rw [contents_of_parseText hds h] at hsame
  have hload' := loadIncludes_unplaced t base (es.foldl (Model.add ⟨none, text'.toList⟩) (.besides imported))
  rw [unplaced_eq_of_declarations imported hsame, loadIncludes_unplaced, hload, Prod.mk.injEq] at hload'
  obtain ⟨hm, hnone⟩ := hload'
  refine ⟨_, parseText_eq_ok_iff.2 ⟨es, hes, Prod.ext rfl hnone.symm, ?_⟩, hm.symm⟩
  rw [← himported]
  exact (congrArg Model.imported hm).symm

theorem runAll_of_unplaced_eq {stages : List Stage} {m' : Model} (he : m'.unplaced = m.unplaced)
    (h : Stage.runAll stages m = (n, none)) :
    ∃ n', Stage.runAll stages m' = (n', none) ∧ n'.unplaced = n.unplaced := by
  have hrun := runAll_unplaced stages m'
  rw [he, runAll_unplaced, h, Prod.mk.injEq] at hrun
  exact ⟨_, Prod.ext rfl (Option.map_eq_none_iff.1 hrun.2.symm), hrun.1.symm⟩

theorem passes_of_buildText (hi : Reachable (.besides imported))
    (h : buildText t base text imported = (.ok m, after)) : ∃ l : Model, l.IsNumbered ∧ l.IsRead ∧ l.Passes m := by
  obtain ⟨l, hparse, hrun⟩ := checked_eq_ok_iff.1 h
  have hl := (hi.parseText hparse).isNumbered
  exact ⟨l, hl, (isRead_of_parseText hparse).1, passes_of_runAll_check hl hrun⟩

/-- The text of a printable model that has been built builds the same model again. -/
theorem Printable.built_again (hp : m.Printable) (hi : Reachable (.besides imported))
    (h : buildText t base text imported = (.ok m, after)) :
    ∃ m', buildText t base m.text imported = (.ok m', after) ∧ m'.unplaced = m.unplaced := by
  obtain ⟨l, hparse, hrun⟩ := checked_eq_ok_iff.1 h
  obtain ⟨hread, hne⟩ := isRead_of_parseText hparse
  have hl := (hi.parseText hparse).isNumbered
  have hpasses := passes_of_runAll_check hl hrun
  have hwritten := hpasses.contents_declarations hl hread
  obtain ⟨es, hes, hmap⟩ := hp.program_text (hwritten ▸ hne) (hpasses.longNumerals_declarations hl hread)
  obtain ⟨l', hparse', hl'⟩ :=
    parseText_of_contents hparse hes ((Contents.ofDeclarations_congr hmap).trans hwritten)
  obtain ⟨m', hrun', hm'⟩ := runAll_of_unplaced_eq hl' hrun
  exact ⟨m', checked_eq_ok_iff.2 ⟨l', hparse', hrun'⟩, hm'⟩

end Texts

/-- The text of a model that has been built builds the same model again, but for positions, with the
same imported entries, and that is written as the same text. -/
theorem buildText_text {t : Files.Tree} {base source : String} {after : Imported}
    (h : buildText t base source .empty = (.ok m, after))
    (hincludes : ∀ file ∈ m.includes, '\\' ∉ file.toList ∧ '"' ∉ file.toList)
    (hbodies : ∀ f ∈ m.functions, Expr.AllPlain f.body) :
    ∃ written m', m.text? = some written ∧ buildText t base written .empty = (.ok m', after) ∧
      m'.unplaced = m.unplaced ∧ m'.text? = some written := by
  have hempty : Reachable (.besides .empty) := .empty
  obtain ⟨l, hl, hread, hpasses⟩ := passes_of_buildText hempty h
  have hprintable := hpasses.printable hl hread hincludes hbodies
  obtain ⟨m', hbuild, hm'⟩ := hprintable.built_again hempty h
  refine ⟨m.text, m', hprintable.text?_eq, hbuild, hm', ?_⟩
  rw [← text?_unplaced, hm', text?_unplaced, hprintable.text?_eq]

theorem buildText_text_say :
    let t : Files.Tree := ⟨.root, []⟩
    let source := "type pose fn say(x: pose) \x7b publish('a \"b', x, -007); say(x) \x7d"
    let written := "type pose\n\nfn say(x: pose) \x7b\n    publish(\"a \\\"b\", x, -7);\n    say(x);\n\x7d\n"
    ∃ m, buildText t "" source .empty = (.ok m, .empty) ∧
      (∀ file ∈ m.includes, '\\' ∉ file.toList ∧ '"' ∉ file.toList) ∧
      (∀ f ∈ m.functions, Expr.AllPlain f.body) ∧ m.text? = some written ∧
      ∃ m', buildText t "" written .empty = (.ok m', .empty) ∧ m'.unplaced = m.unplaced ∧
        m'.text? = some written := by
  intro t source written
  obtain ⟨m, after, hb, rfl, hincludes, hbodies, htext⟩ : ∃ m after,
      buildText t "" source .empty = (.ok m, after) ∧ after = .empty ∧
        (∀ file ∈ m.includes, '\\' ∉ file.toList ∧ '"' ∉ file.toList) ∧
        (∀ f ∈ m.functions, Expr.AllPlain f.body) ∧ m.text? = some written :=
    exists_model_of_any (by decide +kernel)
  obtain ⟨written', m', ht, hbuild, hm', ht'⟩ := buildText_text hb hincludes hbodies
  obtain rfl := Option.some.inj (ht.symm.trans htext)
  exact ⟨m, hb, hincludes, hbodies, htext, m', hbuild, hm', ht'⟩

end Model

end RobotLang
