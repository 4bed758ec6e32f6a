import Mathlib.Data.List.Flatten
import Mathlib.Data.List.Induction
import RobotLang.Proofs.BindingRule
import RobotLang.Proofs.Collisions
import RobotLang.Proofs.Landmarks
import RobotLang.Proofs.ReadModels
import RobotLang.Proofs.TypeRule

namespace RobotLang

open Grammar

namespace Place

theorem after_eq (before : List Char) :
    after before = ⟨before.count '\n' + 1, (before.reverse.takeWhile (· != '\n')).length + 1⟩ := by
  induction before using List.reverseRecOn with
  | nil => rfl
  | append_singleton before c ih =>
      rw [after_append, ih, List.foldl_cons, List.foldl_nil, next, List.reverse_append, List.count_append]
      by_cases hc : c = '\n'
      · subst hc
        simp
      · simp [hc]

def Before (p q : Place) : Prop := p.line < q.line ∨ p.line = q.line ∧ p.column < q.column

theorem before_next (p : Place) (c : Char) : p.Before (p.next c) := by
  rw [next]
  split
  · exact .inl (Nat.lt_succ_self _)
  · exact .inr ⟨rfl, Nat.lt_succ_self _⟩

theorem Before.trans {p q r : Place} (h : p.Before q) (h' : q.Before r) : p.Before r := by
  simp only [Before] at *
  omega

theorem before_foldl {more : List Char} (h : more ≠ []) (p : Place) : p.Before (more.foldl next p) := by
  induction more generalizing p with
  | nil => exact absurd rfl h
  | cons c more ih =>
      cases more with
      | nil => exact p.before_next c
      | cons d more => exact (p.before_next c).trans (ih (List.cons_ne_nil d more) (p.next c))

theorem before_fromEnd {text : List Char} {k l : Nat} (hl : l ≤ text.length) (h : k < l) :
    (fromEnd text l).Before (fromEnd text k) := by
  have htake : text.take (text.length - k) =
      text.take (text.length - l) ++ (text.drop (text.length - l)).take (l - k) := by
    rw [← List.take_add]
    congr 1
    omega
  have hne : (text.drop (text.length - l)).take (l - k) ≠ [] := by
    rw [← List.length_pos_iff, List.length_take, List.length_drop]
    omega
  rw [fromEnd, fromEnd, htake, after_append]
  exact before_foldl hne _

end Place

def Position.Before : Option Position → Option Position → Prop
  | some p, some q => p.line < q.line ∨ p.line = q.line ∧ p.column < q.column
  | _, _ => False

/-- A recorded position, and what stands at the place to which it leads. -/
structure Landmark where
  position : Option Position
  here : List Char → Prop

def Grammar.Pin.landmark (s : Source) (x : Pin) : Landmark := ⟨s.position x.mark, x.here⟩

namespace Source

variable {s : Source}

/-- The position leads to an offset of the text at which something stands. -/
def Shows (s : Source) (here : List Char → Prop) (position : Option Position) : Prop :=
  ∃ before rest, s.text = before ++ rest ∧ here rest ∧
    position = some ⟨s.file, before.count '\n' + 1, (before.reverse.takeWhile (· != '\n')).length + 1⟩

/-- Positions lead to what stands there, each of them further down than the one before. -/
structure Charts (s : Source) (xs : List Landmark) : Prop where
  shows : ∀ x ∈ xs, s.Shows x.here x.position
  ordered : xs.Pairwise fun x y => Position.Before x.position y.position

theorem Charts.sublist {xs ys : List Landmark} (h : s.Charts ys) (hs : xs.Sublist ys) : s.Charts xs :=
  ⟨fun x hx => h.shows x (hs.subset hx), h.ordered.sublist hs⟩

theorem before_position {k l : Nat} (hl : l ≤ s.text.length) (h : k < l) :
    Position.Before (s.position l) (s.position k) := by
  have hp := Place.before_fromEnd hl h
  simp only [Place.Before] at hp
  simp only [position, Position.ofPlace, Position.Before]
  omega

theorem shows_position {here : List Char → Prop} {rest : List Char} (hs : rest <:+ s.text) (hh : here rest) :
    s.Shows here (s.position rest.length) := by
  obtain ⟨before, hb⟩ := hs
  refine ⟨before, rest, hb.symm, hh, ?_⟩
  have hlen : s.text.length - rest.length = before.length := by rw [← hb, List.length_append]; omega
  rw [position, Place.fromEnd, hlen, ← hb, List.take_left, Place.after_eq]
  rfl

end Source

theorem Grammar.Trail.mark_le {t r : List Char} {pins : List Pin} (h : Trail t pins r) :
    ∀ x ∈ pins, x.mark ≤ t.length := by
  induction h with
  | stop => exact List.forall_mem_nil _
  | pin hs hm _ ht _ ih =>
      refine List.forall_mem_cons.2 ⟨hm ▸ hs.length_le, fun x hx => ?_⟩
      have hx := ih x hx
      have hlen := hs.length_le
      have htakes := ht.2
      omega

theorem Source.charts_of_trail {s : Source} {t r : List Char} {pins : List Pin} (h : Trail t pins r)
    (ht : t <:+ s.text) : s.Charts (pins.map (Pin.landmark s)) := by
  induction h with
  | stop => exact ⟨List.forall_mem_nil _, .nil⟩
  | @pin t' t u r x pins hs hm hh htakes h ih =>
      have hsuffix : t <:+ s.text := hs.trans ht
      obtain ⟨hshows, hordered⟩ := ih (htakes.1.trans hsuffix)
      refine ⟨List.forall_mem_cons.2 ⟨?_, hshows⟩, List.pairwise_cons.2 ⟨?_, hordered⟩⟩
      · rw [Pin.landmark, hm]
        exact shows_position hsuffix hh
      · intro y hy
        obtain ⟨z, hz, rfl⟩ := List.mem_map.1 hy
        have hle := h.mark_le z hz
        have hlt := htakes.2
        exact before_position (hm ▸ hsuffix.length_le) (by omega)

/-! ### What a model records -/

def Parameter.landmarks (p : Parameter) : List Landmark :=
  ⟨p.position, BeginsWith p.name⟩ :: match p.type with
    | .unresolved name position => [⟨position, BeginsWith name⟩]
    | _ => []

namespace Expr

mutual

/-- The landmarks of an expression, that of a call before those of its arguments. An expression of no
particular kind stands nowhere. -/
def landmarks : Expr → List Landmark
  | literal value position => [⟨position, value.Begins⟩]
  | reference name _ position => [⟨position, BeginsWith name⟩]
  | call name args _ position => ⟨position, BeginsWith name⟩ :: landmarksOf args
  | ros kind _ args position => ⟨position, BeginsWith kind.text⟩ :: landmarksOf args
  | abstract => [⟨none, fun _ => False⟩]

def landmarksOf : List Expr → List Landmark
  | [] => []
  | e :: es => landmarks e ++ landmarksOf es

end

mutual

theorem mem_landmarks {o : Occurrence} : ∀ e : Expr, o ∈ e.occurrences →
    ⟨o.position, BeginsWith o.name⟩ ∈ e.landmarks
  | literal .., h | abstract, h => by simp [occurrences] at h
  | reference name target position, h => by
      simp only [occurrences, List.mem_singleton] at h
      subst h
      exact List.mem_cons_self
  | call name args target position, h => by
      simp only [occurrences, List.mem_cons] at h
      rcases h with rfl | h
      · exact List.mem_cons_self
      · exact List.mem_cons_of_mem _ (mem_landmarksOf args h)
  | ros kind topic args position, h => List.mem_cons_of_mem _ (mem_landmarksOf args h)

theorem mem_landmarksOf {o : Occurrence} : ∀ es : List Expr, o ∈ occurrencesOf es →
    ⟨o.position, BeginsWith o.name⟩ ∈ landmarksOf es
  | [], h => by simp [occurrencesOf] at h
  | e :: es, h => by
      simp only [occurrencesOf, List.mem_append] at h
      rcases h with h | h
      · exact List.mem_append_left _ (mem_landmarks e h)
      · exact List.mem_append_right _ (mem_landmarksOf es h)

end

end Expr

inductive Store
  | robots
  | types
  | functions
  | methods
  deriving DecidableEq, Repr

namespace Store

def keyword : Store → String
  | robots => "robot"
  | types => "type"
  | functions => "fn"
  | methods => "method"

def label : Store → String
  | robots => "robot"
  | types => "type"
  | functions => "function"
  | methods => "method"

def entries (m : Model) : Store → List (String × Option Position)
  | robots => Model.labels m.robots
  | types => Model.labels m.types
  | functions => Model.labels (m.functions.map (·.toEntity))
  | methods => Model.labels (m.methods.map (·.toEntity))

def landmarks (m : Model) (k : Store) : List Landmark :=
  (k.entries m).map fun e => ⟨e.2, Heads k.keyword e.1⟩

def declared : Store → Declaration → List (String × Nat)
  | robots, .robot mark name => [(name, mark)]
  | types, .type mark name => [(name, mark)]
  | functions, .function mark name _ _ => [(name, mark)]
  | methods, .method mark name _ => [(name, mark)]
  | _, _ => []

theorem entries_add (s : Source) (m : Model) (d : Declaration) (k : Store) :
    k.entries (m.add s d) = k.entries m ++ (k.declared d).map fun e => (e.1, s.position e.2) := by
  cases d <;> cases k <;>
    simp [entries, declared, Model.add, Model.addInclude, Model.addRobot, Model.addType, Model.addFunction,
      Model.addMethod, Model.labels]

theorem entries_addAll (s : Source) (ds : List Declaration) (m : Model) (k : Store) :
    k.entries (ds.foldl (Model.add s) m) =
      k.entries m ++ (ds.flatMap k.declared).map fun e => (e.1, s.position e.2) := by
  induction ds generalizing m with
  | nil => exact (List.append_nil _).symm
  | cons d ds ih =>
      rw [List.foldl_cons, ih, entries_add, List.flatMap_cons, List.map_append, List.append_assoc]

theorem entries_besides (imported : Imported) (k : Store) : k.entries (.besides imported) = [] := by
  cases k <;> rfl

theorem declared_sublist (k : Store) (d : Declaration) :
    ((k.declared d).map fun e => Pin.mk e.2 (Heads k.keyword e.1)).Sublist d.pins := by
  cases d <;> cases k <;> simp [declared, Declaration.pins, keyword]

end Store

/-! ### Reading -/

section Reading

variable (s : Source)

theorem landmarks_parameter (p : ParameterTree) :
    (s.parameter p).landmarks.Sublist (p.pins.map (Pin.landmark s)) := by
  by_cases h : p.typeName = "bool"
  · simp [Source.parameter, Source.type, Parameter.landmarks, ParameterTree.pins, Pin.landmark, h]
  · simp [Source.parameter, Source.type, Parameter.landmarks, ParameterTree.pins, Pin.landmark, h]

theorem landmarks_parameters (ps : List ParameterTree) :
    ((ps.map s.parameter).flatMap Parameter.landmarks).Sublist
      ((ps.flatMap ParameterTree.pins).map (Pin.landmark s)) := by
  rw [List.flatMap_map, List.map_flatMap]
  exact .flatMap_right ps fun p _ => landmarks_parameter s p

mutual

theorem landmarks_expr : ∀ e : ExprTree, (s.expr e).landmarks = e.pins.map (Pin.landmark s)
  | .literal .. | .name .. => rfl
  | .call _ _ args | .ros _ _ _ args => by
      simp only [Source.expr, Expr.landmarks, ExprTree.pins, List.map_cons, landmarksOf_exprs args,
        Pin.landmark]

theorem landmarksOf_exprs : ∀ es : List ExprTree,
    Expr.landmarksOf (s.exprs es) = (ExprTree.pinsOf es).map (Pin.landmark s)
  | [] => rfl
  | e :: es => by
      simp only [Source.exprs, Expr.landmarksOf, ExprTree.pinsOf, List.map_append, landmarks_expr e,
        landmarksOf_exprs es]

end

variable {s} {ds : List Declaration} {m : Model}

theorem mem_functions_add {f : Function} {d : Declaration} (h : f ∈ (m.add s d).functions) :
    f ∈ m.functions ∨ ∃ mark name ps body, d = .function mark name ps body ∧
      f.parameters = ps.map s.parameter ∧ f.body = s.exprs body := by
  cases d with
  | function mark name ps body =>
      simp only [Model.add, Model.addFunction, List.mem_append, List.mem_singleton] at h
      rcases h with h | rfl
      · exact .inl h
      · exact .inr ⟨mark, name, ps, body, rfl, rfl, rfl⟩
  | _ => exact .inl h

theorem mem_methods_add {f : Method} {d : Declaration} (h : f ∈ (m.add s d).methods) :
    f ∈ m.methods ∨ ∃ mark name ps, d = .method mark name ps ∧ f.parameters = ps.map s.parameter := by
  cases d with
  | method mark name ps =>
      simp only [Model.add, Model.addMethod, List.mem_append, List.mem_singleton] at h
      rcases h with h | rfl
      · exact .inl h
      · exact .inr ⟨mark, name, ps, rfl, rfl⟩
  | _ => exact .inl h

theorem mem_addAll {α : Type} {store : Model → List α} {entry : Declaration → α → Prop}
    (h : ∀ {m d a}, a ∈ store (m.add s d) → a ∈ store m ∨ entry d a) {a : α}
    (ha : a ∈ store (ds.foldl (Model.add s) m)) : a ∈ store m ∨ ∃ d ∈ ds, entry d a := by
  induction ds generalizing m with
  | nil => exact .inl ha
  | cons d ds ih =>
      rcases ih ha with ha | ⟨d', hd', ha⟩
      · exact (h ha).imp_right fun he => ⟨d, List.mem_cons_self, he⟩
      · exact .inr ⟨d', List.mem_cons_of_mem d hd', ha⟩

end Reading

namespace Source

variable {s : Source} {m : Model} {imported : Imported}

/-- Everything that is recorded of the declarations of a model and of what is in them is charted. -/
structure Locates (s : Source) (m : Model) : Prop where
  stores : ∀ k : Store, s.Charts (k.landmarks m)
  functions : ∀ f ∈ m.functions, s.Charts (f.parameters.flatMap Parameter.landmarks)
  methods : ∀ f ∈ m.methods, s.Charts (f.parameters.flatMap Parameter.landmarks)
  bodies : ∀ f ∈ m.functions, s.Charts (Expr.landmarksOf f.body)

theorem locates_of_model (h : s.model imported = .ok m) : s.Locates m := by
  obtain ⟨ds, hds, rfl⟩ := model_eq_ok_iff.1 h
  obtain ⟨⟨r, hrun⟩, -, -⟩ := program_eq_ok_iff.1 hds
  have hcharts := charts_of_trail (trail_of_run_program hrun) List.suffix_rfl
  -- What a declaration is pinned to is charted with the rest of the program.
  have hdeclaration : ∀ d ∈ ds, ∀ {pins : List Pin}, pins.Sublist d.pins →
      s.Charts (pins.map (Pin.landmark s)) := fun d hd pins hs =>
    hcharts.sublist ((hs.trans (List.sublist_flatten_of_mem (List.mem_map_of_mem hd))).map _)
  refine ⟨fun k => ?_, fun f hf => ?_, fun f hf => ?_, fun f hf => ?_⟩
  · have hk : k.landmarks (ds.foldl (Model.add s) (.besides imported)) =
        (ds.flatMap fun d => (k.declared d).map fun e => Pin.mk e.2 (Heads k.keyword e.1)).map
          (Pin.landmark s) := by
      rw [Store.landmarks, Store.entries_addAll, Store.entries_besides, List.nil_append, List.map_map,
        List.map_flatMap, List.map_flatMap]
      simp only [List.map_map]
      rfl
    rw [hk]
    exact hcharts.sublist ((List.Sublist.flatMap_right ds fun d _ => k.declared_sublist d).map _)
  · rcases mem_addAll mem_functions_add hf with hf | ⟨_, hd, mark, name, ps, body, rfl, hps, -⟩
    · cases hf
    · rw [hps]
      refine (hdeclaration _ hd ?_).sublist (landmarks_parameters s ps)
      exact ((List.sublist_append_left _ _).cons _)
  · rcases mem_addAll mem_methods_add hf with hf | ⟨_, hd, mark, name, ps, rfl, hps⟩
    · cases hf
    · rw [hps]
      refine (hdeclaration _ hd ?_).sublist (landmarks_parameters s ps)
      exact (List.Sublist.refl _).cons _
  · rcases mem_addAll mem_functions_add hf with hf | ⟨_, hd, mark, name, ps, body, rfl, -, hbody⟩
    · cases hf
    · rw [hbody, landmarksOf_exprs]
      exact hdeclaration _ hd ((List.sublist_append_right _ _).cons _)

end Source

/-! ### What the checks report -/

namespace Model

variable {m : Model} {e : Error}

theorem retypeAt_eq_error {owner : Key} {i : Nat} {type : ParamType}
    (h : m.retypeAt owner i type = .error e) :
    (∃ described, e = .noSuchOwner described) ∨ ∃ described, e = .notAnOwner described := by
  rcases owner with ⟨_ | _ | _ | _ | _ | _, id⟩ | n | s | _ <;> simp only [retypeAt, editParameters] at h
  case function | method =>
    split at h
    · exact .inl ⟨_, (Except.error.inj h).symm⟩
    · cases h
  all_goals exact .inr ⟨_, (Except.error.inj h).symm⟩

theorem resolveSlot_eq_error {s : Slot} (h : (m.resolveSlot s).2 = some e) :
    (∃ name position, s.parameter.type = .unresolved name position ∧
        e = .unresolved s!"type '{name}'" position) ∨
      (∃ described, e = .noSuchOwner described) ∨ ∃ described, e = .notAnOwner described := by
  cases ht : s.parameter.type with
  | unresolved name position =>
      simp only [resolveSlot, ht] at h
      cases hr : m.resolveTypeName name with
      | none =>
          simp only [hr, Option.some.injEq] at h
          exact .inl ⟨name, position, rfl, h.symm⟩
      | some type =>
          simp only [hr] at h
          cases he : m.retypeAt s.owner s.index type with
          | ok n => simp only [he, reduceCtorEq] at h
          | error e' =>
              simp only [he, Option.some.injEq] at h
              exact .inr (retypeAt_eq_error (h ▸ he))
  | _ => simp only [resolveSlot, ht, reduceCtorEq] at h

theorem mem_parameters_of_mem_slots {s : Slot} (h : s ∈ m.slots) : s.parameter ∈ m.parameters := by
  have hs : ∀ {owner : Key} {ps : List Parameter}, s ∈ slotsOf owner ps → s.parameter ∈ ps := by
    intro owner ps hmem
    obtain ⟨i, hi, rfl⟩ := List.mem_mapIdx.1 hmem
    exact List.getElem_mem hi
  rw [slots, List.mem_append, List.mem_flatMap, List.mem_flatMap] at h
  rw [parameters, List.mem_append, List.mem_flatMap, List.mem_flatMap]
  rcases h with ⟨f, hf, h⟩ | ⟨f, hf, h⟩
  · exact .inl ⟨f, hf, hs h⟩
  · exact .inr ⟨f, hf, hs h⟩

theorem bodies_resolveParameters (m : Model) :
    m.resolveParameters.1.functions.map (·.body) = m.functions.map (·.body) := by
  refine foldUntil_keeps (P := fun n : Model => n.functions.map (·.body) = m.functions.map (·.body))
    resolveSlot (fun n s hn => ?_) m.slots rfl
  rw [resolveSlot]
  split
  · split
    · exact hn
    · split
      next k hk =>
        rcases editParameters_eq_ok hk with ⟨id, f, ps, hf, -, rfl⟩ | ⟨id, f, ps, hf, -, rfl⟩
        · have hbody : ({ f with parameters := ps } : Function).body = f.body := rfl
          exact (map_set_of_eq (fun f : Function => f.body) (getElem?_of_find? hf) hbody).trans hn
        · exact hn
      · exact hn
  · exact hn

theorem occurrence_of_resolveExpressions (h : m.resolveExpressions.2 = some e) :
    ∃ f ∈ m.functions, ∃ o ∈ Expr.occurrencesOf f.body, e = .unresolved o.element o.position := by
  have hs : (mapUntil m.bindSite m.sites).2 = some e := by rw [← resolveExpressions_sites, h]
  obtain ⟨x, hx, he⟩ := exists_of_mapUntil hs
  obtain ⟨f, hf, hx⟩ := List.mem_flatMap.1 hx
  obtain ⟨o, ho, rfl⟩ := List.mem_map.1 hx
  refine ⟨f, hf, o, ho, ?_⟩
  rw [bindSite] at he
  split at he
  · cases he
  · exact (Option.some.inj he).symm

theorem runAll_check_eq_some (h : (Stage.runAll Stage.check m).2 = some e) :
    m.duplicateError = some e ∨ m.resolveParameters.2 = some e ∨
      m.resolveParameters.1.resolveExpressions.2 = some e := by
  simp only [Stage.check, Stage.resolution, Stage.runAll, Stage.run] at h
  cases hd : m.duplicateError with
  | some e' =>
      simp only [hd] at h
      exact .inl h
  | none =>
      simp only [hd] at h
      rcases hp : m.resolveParameters with ⟨n, _ | e'⟩ <;> simp only [hp] at h
      · refine .inr (.inr ?_)
        rcases hx : n.resolveExpressions with ⟨k, _ | e'⟩ <;> simp only [hx] at h
        · cases h
        · exact h
      · exact .inr (.inl h)

end Model

namespace Source

variable {s : Source} {m : Model} {imported : Imported}

def ShowsTwice (s : Source) (m : Model) (kind : Option String) (name : String)
    (first second : Option Position) : Prop :=
  ∃ k : Store, kind = some k.label ∧ (name, first) ∈ k.entries m ∧ (name, second) ∈ k.entries m ∧
    Position.Before first second ∧ s.Shows (Heads k.keyword name) first ∧
    s.Shows (Heads k.keyword name) second

def ShowsName (s : Source) (m : Model) (element : String) (position : Option Position) : Prop :=
  ∃ name, s.Shows (BeginsWith name) position ∧
    ((element = s!"type '{name}'" ∧ ∃ p ∈ m.parameters, p.type = .unresolved name position) ∨
      ∃ f ∈ m.functions, ∃ o ∈ Expr.occurrencesOf f.body,
        o.name = name ∧ o.position = position ∧ element = o.element)

theorem Locates.showsTwice (h : s.Locates m) (k : Store) {kind : Kind} {entries : List (Entity kind)}
    (hk : k.entries m = Model.labels entries) {label : Option String} {name : String}
    {first second : Option Position} (hr : Repeats k.label entries (.duplicate label name first second)) :
    s.ShowsTwice m label name first second := by
  obtain ⟨i, j, a, b, hp, ha, hb, he⟩ := hr
  obtain ⟨rfl, rfl, rfl, rfl⟩ := (Error.duplicate.injEq ..).mp he
  obtain ⟨hlt, -, hnames⟩ := hp.collide
  rw [List.getElem?_map, List.getElem?_map, ha, hb, Option.map_some, Option.map_some, Option.some.injEq]
    at hnames
  obtain ⟨hi, rfl⟩ := List.getElem?_eq_some_iff.1 ha
  obtain ⟨hj, rfl⟩ := List.getElem?_eq_some_iff.1 hb
  have hcharts := h.stores k
  rw [Store.landmarks, hk, Model.labels, List.map_map] at hcharts
  have hordered := List.pairwise_iff_getElem.1 (List.pairwise_map.1 hcharts.ordered) i j hi hj hlt
  have hshows := fun {l : Nat} (hl : l < entries.length) =>
    hcharts.shows _ (List.mem_map_of_mem (List.getElem_mem hl))
  have hmem := fun {l : Nat} (hl : l < entries.length) =>
    List.mem_map_of_mem (f := fun e : Entity kind => (e.name, e.position)) (List.getElem_mem hl)
  refine ⟨k, rfl, ?_, ?_, hordered, hshows hi, ?_⟩
  · rw [hk]
    exact hmem hi
  · rw [hk, hnames]
    exact hmem hj
  · rw [hnames]
    exact hshows hj

theorem Locates.shows_of_unresolved (h : s.Locates m) {p : Parameter} (hp : p ∈ m.parameters) {name : String}
    {position : Option Position} (ht : p.type = .unresolved name position) :
    s.Shows (BeginsWith name) position := by
  have hl : Landmark.mk position (BeginsWith name) ∈ p.landmarks := by simp [Parameter.landmarks, ht]
  rw [Model.parameters, List.mem_append, List.mem_flatMap, List.mem_flatMap] at hp
  rcases hp with ⟨f, hf, hp⟩ | ⟨f, hf, hp⟩
  · exact (h.functions f hf).shows _ (List.mem_flatMap.2 ⟨p, hp, hl⟩)
  · exact (h.methods f hf).shows _ (List.mem_flatMap.2 ⟨p, hp, hl⟩)

/-- What an error says is found in the text where the error says it. -/
def Explains (s : Source) (m : Model) : Error → Prop
  | .duplicate kind name first second => s.ShowsTwice m kind name first second
  | .unresolved element position => s.ShowsName m element position
  | _ => True

namespace Locates

variable {e : Error}

theorem duplicateError (h : s.Locates m) (he : m.duplicateError = some e) : s.Explains m e := by
  have hrepeats : ∀ (k : Store) {kind : Kind} {entries : List (Entity kind)},
      k.entries m = Model.labels entries → Repeats k.label entries e → s.Explains m e := by
    intro k kind entries hk hr
    obtain ⟨i, j, a, b, hp, ha, hb, rfl⟩ := hr
    exact h.showsTwice k hk ⟨i, j, a, b, hp, ha, hb, rfl⟩
  obtain ⟨check, hmem, hc⟩ := (Model.duplicateError_eq_some_iff.1 he).exists_mem
  simp only [Model.nameChecks, List.mem_cons, List.not_mem_nil, or_false] at hmem
  rcases hmem with rfl | rfl | rfl | rfl | rfl | rfl
  · obtain ⟨_, _, _, -, -, rfl⟩ := hc
    trivial
  · exact hrepeats .robots rfl hc
  · exact hrepeats .types rfl hc
  · obtain ⟨_, _, _, -, -, -, rfl⟩ := hc
    trivial
  · exact hrepeats .functions rfl hc
  · exact hrepeats .methods rfl hc

theorem resolveParameters (h : s.Locates m) (he : m.resolveParameters.2 = some e) : s.Explains m e := by
  obtain ⟨n, slot, hs, he⟩ := exists_of_foldUntil he
  rcases Model.resolveSlot_eq_error he with ⟨name, position, ht, rfl⟩ | ⟨_, rfl⟩ | ⟨_, rfl⟩
  · have hp := Model.mem_parameters_of_mem_slots hs
    exact ⟨name, h.shows_of_unresolved hp ht, .inl ⟨rfl, slot.parameter, hp, ht⟩⟩
  · trivial
  · trivial

theorem resolveExpressions (h : s.Locates m)
    (he : m.resolveParameters.1.resolveExpressions.2 = some e) : s.Explains m e := by
  obtain ⟨g, hg, o, ho, rfl⟩ := Model.occurrence_of_resolveExpressions he
  have hbody : g.body ∈ m.functions.map (·.body) :=
    m.bodies_resolveParameters ▸ List.mem_map_of_mem (f := fun f : Function => f.body) hg
  obtain ⟨f, hf, hfg⟩ := List.mem_map.1 hbody
  rw [← hfg] at ho
  exact ⟨o.name, (h.bodies f hf).shows _ (Expr.mem_landmarksOf _ ho), .inr ⟨f, hf, o, ho, rfl, rfl, rfl⟩⟩

theorem check (h : s.Locates m) (he : (Stage.runAll Stage.check m).2 = some e) : s.Explains m e := by
  rcases Model.runAll_check_eq_some he with he | he | he
  · exact h.duplicateError he
  · exact h.resolveParameters he
  · exact h.resolveExpressions he

end Locates

/-- Every position of a model that has been read is the line and the column of an offset of the text at
which its construct stands: the keyword and the name of a declaration, the name of a parameter, the name of
its type, and the name, the kind of call or the literal of an expression. In every store, every list of
parameters and every body they come one behind the other. Where the check of the model, with whatever has
been imported, reports a repeated name or a name that it does not find, there it stands. -/
theorem positions_point_at_constructs (hm : s.model imported = .ok m) :
    s.Locates m ∧ ∀ (loaded : Imported) (e : Error),
      (Stage.runAll Stage.check { m with imported := loaded }).2 = some e → s.Explains m e := by
  have h : s.Locates m := locates_of_model hm
  refine ⟨h, fun loaded e he => ?_⟩
  have hloaded : s.Locates { m with imported := loaded } := ⟨h.stores, h.functions, h.methods, h.bodies⟩
  have hexplains := hloaded.check he
  cases e with
  | duplicate kind name first second => exact hexplains
  | unresolved element position => exact hexplains
  | _ => trivial

theorem positions_point_at_constructs_arm :
    let s : Source := ⟨none, "// robot\nrobot arm robot\n// arm\narm".toList⟩
    let first : Option Position := some ⟨none, 2, 1⟩
    let second : Option Position := some ⟨none, 2, 11⟩
    ∃ m, s.model .empty = .ok m ∧ s.Locates m ∧ Store.robots.entries m = [("arm", first), ("arm", second)] ∧
      (Stage.runAll Stage.check { m with imported := .empty }).2 =
        some (.duplicate (some "robot") "arm" first second) ∧
      s.ShowsTwice m (some "robot") "arm" first second := by
  intro s first second
  let ds : List Declaration := [.robot 26 "arm", .robot 16 "arm"]
  have hs : s.program = .ok ds :=
    program_eq_ok_iff.2 ⟨⟨[], by decide +kernel⟩, by decide, by decide⟩
  let m := ds.foldl (Model.add s) (.besides .empty)
  have hm : s.model .empty = .ok m := model_eq_ok_iff.2 ⟨ds, hs, rfl⟩
  obtain ⟨hlocates, hexplains⟩ := positions_point_at_constructs hm
  have he : (Stage.runAll Stage.check { m with imported := .empty }).2 =
      some (.duplicate (some "robot") "arm" first second) := by
    decide +kernel
  exact ⟨m, hm, hlocates, by decide +kernel, he, hexplains .empty _ he⟩

end Source

end RobotLang
