import RobotLang.Proofs.Growth
import RobotLang.Proofs.Recovery
import RobotLang.Proofs.Unplaced
import RobotLang.Source

namespace RobotLang

open Grammar

def Source.nowhere : Source := ⟨none, []⟩

/-- What is declared, kind by kind and without positions. -/
structure Contents where
  includes : List String
  robots : List String
  types : List String
  functions : List (String × List Parameter × List Expr)
  methods : List (String × List Parameter)
  deriving Repr

namespace Contents

def empty : Contents := ⟨[], [], [], [], []⟩

def append (c d : Contents) : Contents :=
  ⟨c.includes ++ d.includes, c.robots ++ d.robots, c.types ++ d.types, c.functions ++ d.functions,
    c.methods ++ d.methods⟩

def ofDeclaration : Declaration → Contents
  | .includes file => { empty with includes := [file] }
  | .robot _ name => { empty with robots := [name] }
  | .type _ name => { empty with types := [name] }
  | .function _ name ps body =>
    { empty with functions := [(name, ps.map fun p => (Source.nowhere.parameter p).unplaced,
        Expr.unplacedAll (Source.nowhere.exprs body))] }
  | .method _ name ps => { empty with methods := [(name, ps.map fun p => (Source.nowhere.parameter p).unplaced)] }

def ofDeclarations (ds : List Declaration) : Contents := ds.foldr (fun d c => (ofDeclaration d).append c) empty

theorem append_empty (c : Contents) : c.append empty = c := by
  simp only [append, empty, List.append_nil]

theorem append_assoc (c d e : Contents) : (c.append d).append e = c.append (d.append e) := by
  simp only [append, List.append_assoc]

theorem empty_append (c : Contents) : empty.append c = c := by
  simp only [append, empty, List.nil_append]

theorem ofDeclarations_ne_empty {ds : List Declaration} (h : ds ≠ []) : ofDeclarations ds ≠ empty := by
  cases ds with
  | nil => exact absurd rfl h
  | cons d ds => cases d <;> simp [ofDeclarations, ofDeclaration, append, empty]

theorem ofDeclarations_eq (ds : List Declaration) :
    ofDeclarations ds =
      ⟨ds.flatMap fun d => (ofDeclaration d).includes, ds.flatMap fun d => (ofDeclaration d).robots,
        ds.flatMap fun d => (ofDeclaration d).types, ds.flatMap fun d => (ofDeclaration d).functions,
        ds.flatMap fun d => (ofDeclaration d).methods⟩ := by
  induction ds with
  | nil => rfl
  | cons d ds ih =>
      rw [ofDeclarations] at ih ⊢
      rw [List.foldr_cons, ih]
      simp only [append, List.flatMap_cons]

end Contents

def Function.content (f : Function) : String × List Parameter × List Expr :=
  (f.name, f.parameters.map Parameter.unplaced, Expr.unplacedAll f.body)

def Method.content (f : Method) : String × List Parameter := (f.name, f.parameters.map Parameter.unplaced)

def Model.contents (m : Model) : Contents :=
  ⟨m.includes, m.robots.map (·.name), m.types.map (·.name), m.functions.map Function.content,
    m.methods.map Method.content⟩

section Reading

variable (s s' : Source)

theorem type_unplaced (mark mark' : Nat) (name : String) :
    (s.type mark name).unplaced = (s'.type mark' name).unplaced := by
  simp only [Source.type]
  split <;> rfl

theorem parameter_unplaced (p : ParameterTree) :
    (s.parameter p).unplaced = (s'.parameter p.unmarked).unplaced :=
  congrArg (Parameter.mk p.name · none) (type_unplaced s s' p.typeMark 0 p.typeName)

mutual

theorem expr_unplaced : ∀ e : ExprTree, (s.expr e).unplaced = (s'.expr e.unmarked).unplaced
  | .literal .. | .name .. => rfl
  | .call _ _ args => by
      simp only [Source.expr, ExprTree.unmarked, Expr.unplaced, exprs_unplacedAll args]
  | .ros _ _ _ args => by
      simp only [Source.expr, ExprTree.unmarked, Expr.unplaced, exprs_unplacedAll args]

theorem exprs_unplacedAll : ∀ es : List ExprTree,
    Expr.unplacedAll (s.exprs es) = Expr.unplacedAll (s'.exprs (ExprTree.unmarkedAll es))
  | [] => rfl
  | e :: es => by
      simp only [Source.exprs, ExprTree.unmarkedAll, Expr.unplacedAll, expr_unplaced e, exprs_unplacedAll es]

end

theorem parameters_unplaced (ps : List ParameterTree) :
    (ps.map s.parameter).map Parameter.unplaced = ps.map fun p => (s'.parameter p).unplaced := by
  rw [List.map_map]
  exact List.map_congr_left fun p _ =>
    (parameter_unplaced s s' p).trans (parameter_unplaced s' s' p).symm

theorem unplacedAll_exprs (es : List ExprTree) :
    Expr.unplacedAll (s.exprs es) = Expr.unplacedAll (s'.exprs es) :=
  (exprs_unplacedAll s s' es).trans (exprs_unplacedAll s' s' es).symm

theorem Contents.ofDeclaration_unmarked (d : Declaration) : ofDeclaration d.unmarked = ofDeclaration d := by
  cases d with
  | includes file | robot mark name | type mark name => rfl
  | function mark name ps body =>
      have hb := exprs_unplacedAll Source.nowhere Source.nowhere body
      rw [ExprTree.unmarkedAll_eq_map] at hb
      simp only [Declaration.unmarked, ofDeclaration, List.map_map, Function.comp_def, ← hb,
        ← parameter_unplaced Source.nowhere Source.nowhere]
  | method mark name ps =>
      simp only [Declaration.unmarked, ofDeclaration, List.map_map, Function.comp_def,
        ← parameter_unplaced Source.nowhere Source.nowhere]

theorem Contents.ofDeclarations_congr {ds es : List Declaration}
    (h : ds.map Declaration.unmarked = es.map Declaration.unmarked) : ofDeclarations ds = ofDeclarations es := by
  have hu : ∀ ds : List Declaration, ofDeclarations (ds.map Declaration.unmarked) = ofDeclarations ds := by
    intro ds
    induction ds with
    | nil => rfl
    | cons d ds ih =>
        rw [ofDeclarations] at ih ⊢
        rw [List.map_cons, List.foldr_cons, ih, ofDeclaration_unmarked]
        rfl
  rw [← hu ds, h, hu es]

theorem contents_add (m : Model) (d : Declaration) :
    (m.add s d).contents = m.contents.append (.ofDeclaration d) := by
  cases d with
  | includes file | robot mark name | type mark name =>
      simp [Model.add, Model.addInclude, Model.addRobot, Model.addType, Model.contents, Contents.append,
        Contents.ofDeclaration, Contents.empty]
  | function mark name ps body =>
      simp only [Model.add, Model.addFunction, Model.contents, Contents.append, Contents.ofDeclaration,
        Contents.empty, List.append_nil, List.map_append, List.map_cons, List.map_nil, Function.content,
        parameters_unplaced s Source.nowhere, unplacedAll_exprs s Source.nowhere]
  | method mark name ps =>
      simp only [Model.add, Model.addMethod, Model.contents, Contents.append, Contents.ofDeclaration,
        Contents.empty, List.append_nil, List.map_append, List.map_cons, List.map_nil, Method.content,
        parameters_unplaced s Source.nowhere]

theorem contents_foldl (ds : List Declaration) (m : Model) :
    (ds.foldl (Model.add s) m).contents = m.contents.append (.ofDeclarations ds) := by
  induction ds generalizing m with
  | nil => exact (Contents.append_empty _).symm
  | cons d ds ih =>
      rw [List.foldl_cons, ih, contents_add, Contents.append_assoc]
      rfl

end Reading

theorem map_eq_of_numbered {α β γ : Type} {kind : Kind} {entity : α → Entity kind} {content : α → γ} {g : α → β}
    (hg : ∀ a b, (entity a).id = (entity b).id → content a = content b → g a = g b) {as bs : List α}
    (ha : Numbered (as.map entity)) (hb : Numbered (bs.map entity)) (h : as.map content = bs.map content) :
    as.map g = bs.map g := by
  apply List.ext_getElem?
  intro i
  have hi := congrArg (·[i]?) h
  simp only [List.getElem?_map] at hi ⊢
  cases hx : as[i]? with
  | none =>
      rw [hx, Option.map_none, eq_comm, Option.map_eq_none_iff] at hi
      rw [hi]
  | some a =>
      rw [hx, Option.map_some, eq_comm, Option.map_eq_some_iff] at hi
      obtain ⟨b, hy, hc⟩ := hi
      have hida := ha i (entity a) (by rw [List.getElem?_map, hx]; rfl)
      have hidb := hb i (entity b) (by rw [List.getElem?_map, hy]; rfl)
      rw [hy, Option.map_some, Option.map_some, hg a b (hida.trans hidb.symm) hc.symm]

theorem function_unplaced_eq {f g : Function} (hid : f.id = g.id) (h : f.content = g.content) :
    f.unplaced = g.unplaced := by
  simp only [Function.content, Prod.mk.injEq] at h
  obtain ⟨hn, hps, hb⟩ := h
  simp only [Function.unplaced, Entity.unplaced, hid, hn, hps, hb]

theorem method_unplaced_eq {f g : Method} (hid : f.id = g.id) (h : f.content = g.content) :
    f.unplaced = g.unplaced := by
  obtain ⟨hn, hps⟩ := Prod.mk.inj h
  simp only [Method.unplaced, Entity.unplaced, hid, hn, hps]

theorem entity_unplaced_eq {kind : Kind} {e e' : Entity kind} (hid : e.id = e'.id) (h : e.name = e'.name) :
    e.unplaced = e'.unplaced := by
  simp only [Entity.unplaced, hid, h]

/-- Numbered models of the same contents are the same up to positions, if their ROS calls and imported
entries are. -/
theorem Model.unplaced_eq_of_contents {m n : Model} (hm : m.IsNumbered) (hn : n.IsNumbered)
    (h : m.contents = n.contents) (hc : m.rosCalls = n.rosCalls) (hi : m.imported = n.imported) :
    m.unplaced = n.unplaced := by
  obtain ⟨hincludes, hrobots, htypes, hfunctions, hmethods⟩ := (Contents.mk.injEq ..).mp h
  have hr : m.robots.map Entity.unplaced = n.robots.map Entity.unplaced :=
    map_eq_of_numbered (fun _ _ => entity_unplaced_eq) (by simpa using hm.robots) (by simpa using hn.robots) hrobots
  have ht : m.types.map Entity.unplaced = n.types.map Entity.unplaced :=
    map_eq_of_numbered (fun _ _ => entity_unplaced_eq) (by simpa using hm.types) (by simpa using hn.types) htypes
  have hf : m.functions.map Function.unplaced = n.functions.map Function.unplaced :=
    map_eq_of_numbered (fun _ _ => function_unplaced_eq) hm.functions hn.functions hfunctions
  have hme : m.methods.map Method.unplaced = n.methods.map Method.unplaced :=
    map_eq_of_numbered (fun _ _ => method_unplaced_eq) hm.methods hn.methods hmethods
  simp only [unplaced, hr, ht, hf, hme, hc, hi, hincludes]

end RobotLang
