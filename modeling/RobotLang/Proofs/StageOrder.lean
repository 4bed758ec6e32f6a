import RobotLang.Proofs.BindingRule
import RobotLang.Proofs.Registry
import RobotLang.Proofs.TypeRule
import RobotLang.Stage

namespace RobotLang

namespace Expr

/-- What finds a target in one scope and among some parameters finds one in another scope and among
others. -/
def Covers (scope : Scope) (ps : List Parameter) (scope' : Scope) (qs : List Parameter) : Prop :=
  ∀ o : Occurrence, (o.targetIn scope ps).isSome → (o.targetIn scope' qs).isSome

section

variable {scope scope' : Scope} {ps qs : List Parameter}

mutual

/-- Binding again, where everything that was found is still found, takes no notice of the first time. -/
theorem bind_bind (h : Covers scope ps scope' qs) : ∀ e : Expr,
    bind scope' qs (bind scope ps e).1 = bind scope' qs e ∧
      ((bind scope ps e).2 = none → (bind scope' qs e).2 = none)
  | literal .. | abstract => ⟨rfl, fun _ => rfl⟩
  | reference name target position => by
      have hv := h ⟨.value, name, none, none⟩
      simp only [Occurrence.targetIn] at hv
      -- A target that is found is found again, and where there is none nothing has been bound.
      cases ht : valueTarget scope ps name with
      | none => exact ⟨by simp only [bind, ht], fun hn => by simp [bind, ht] at hn⟩
      | some bound =>
          obtain ⟨bound', ht'⟩ := Option.isSome_iff_exists.1 (hv (by rw [ht, Option.isSome_some]))
          exact ⟨by simp only [bind, ht, ht'], fun _ => by simp only [bind, ht']⟩
  | call name args target position => by
      obtain ⟨hargs, hnone⟩ := bindAll_bindAll h args
      have hc := h ⟨.callee, name, none, none⟩
      simp only [Occurrence.targetIn] at hc
      cases ht : scope.callable? name with
      | none => exact ⟨by simp only [bind, ht], fun hn => by simp [bind, ht] at hn⟩
      | some bound =>
          obtain ⟨bound', ht'⟩ := Option.isSome_iff_exists.1 (hc (by rw [ht, Option.isSome_some]))
          refine ⟨by simp only [bind, ht, ht', hargs], fun hn => ?_⟩
          simp only [bind, ht] at hn
          simpa only [bind, ht'] using hnone hn
  | ros kind topic args position => by
      obtain ⟨hargs, hnone⟩ := bindAll_bindAll h args
      exact ⟨by simp only [bind, hargs], hnone⟩

theorem bindAll_bindAll (h : Covers scope ps scope' qs) : ∀ es : List Expr,
    bindAll scope' qs (bindAll scope ps es).1 = bindAll scope' qs es ∧
      ((bindAll scope ps es).2 = none → (bindAll scope' qs es).2 = none)
  | [] => ⟨rfl, fun _ => rfl⟩
  | e :: es => by
      obtain ⟨he, hnone⟩ := bind_bind h e
      obtain ⟨hes, hnones⟩ := bindAll_bindAll h es
      rcases hb : bind scope ps e with ⟨b, _ | error⟩ <;> rw [hb] at he hnone
      · -- the first time got over `e`, and so does the second
        have hb' : bind scope' qs e = ((bind scope' qs e).1, none) := by rw [← hnone rfl]
        rw [bindAll, hb]
        simp only [bindAll, he]
        rw [hb']
        simp only [hes, true_and]
        exact hnones
      · rw [bindAll, hb]
        exact ⟨by simp only [bindAll, he], fun hn => by cases hn⟩

end

end

variable (scope : Scope)

variable {ps qs : List Parameter}

mutual

theorem bind_congr (h : ∀ name, parameterIndex? ps name = parameterIndex? qs name) :
    ∀ e : Expr, bind scope ps e = bind scope qs e
  | literal .. | abstract => rfl
  | reference name target position => by simp only [bind, valueTarget, h]
  | call name args target position => by simp only [bind, bindAll_congr h args]
  | ros kind topic args position => by simp only [bind, bindAll_congr h args]

theorem bindAll_congr (h : ∀ name, parameterIndex? ps name = parameterIndex? qs name) :
    ∀ es : List Expr, bindAll scope ps es = bindAll scope qs es
  | [] => rfl
  | e :: es => by simp only [bindAll, bind_congr h e, bindAll_congr h es]

end

mutual

theorem rosCalls_shape : ∀ e : Expr, e.shape.rosCalls = e.rosCalls
  | literal .. | reference .. | abstract => rfl
  | call _ args _ _ => by simp only [shape, rosCalls, rosCallsOf_shapes args]
  | ros _ _ args _ => by simp only [shape, rosCalls, rosCallsOf_shapes args]

theorem rosCallsOf_shapes : ∀ es : List Expr, rosCallsOf (shapes es) = rosCallsOf es
  | [] => rfl
  | e :: es => by simp only [shapes, rosCallsOf, rosCalls_shape e, rosCallsOf_shapes es]

end

end Expr

theorem parameterIndex?_mapUntil_typeStep (rule : String → Option ParamType) (ps : List Parameter)
    (name : String) :
    parameterIndex? (mapUntil (typeStep rule) ps).1 name = parameterIndex? ps name := by
  have hn : ∀ qs : List Parameter,
      parameterIndex? qs name = (untypedParameters qs).findIdx? (·.name == name) := by
    intro qs
    rw [parameterIndex?, untypedParameters, List.findIdx?_map]
    rfl
  rw [hn, untyped_typeStep, ← hn]

/-- A type that a name stands for is not a name, so that it is not looked up again, and by a rule that
knows at least as much it would have been the same. -/
theorem typeStep_typeStep {rule rule' : String → Option ParamType}
    (hr : ∀ name type, rule name = some type → ∀ n position, type ≠ .unresolved n position)
    (hx : ∀ name type, rule name = some type → rule' name = some type) (p : Parameter) :
    typeStep rule' (typeStep rule p).1 = typeStep rule' p := by
  cases hp : p.type with
  | unresolved name position =>
      cases ht : rule name with
      | none => simp only [typeStep, hp, ht]
      | some type =>
          have hne := hr name type ht
          cases type with
          | unresolved n q => exact absurd rfl (hne n q)
          | _ => simp only [typeStep, hp, ht, hx name _ ht]
  | _ => simp only [typeStep, hp]

namespace Owners

variable {α : Type} {kind : Kind} (S : Owners α kind)

theorem typeOwner_typeOwner
    (hr : ∀ name type, S.rule name = some type → ∀ n position, type ≠ .unresolved n position) (a : α) :
    S.typeOwner (S.typeOwner a).1 = S.typeOwner a := by
  simp only [typeOwner, S.parameters_having, S.having_having,
    mapUntil_mapUntil _ (typeStep_typeStep hr fun _ _ h => h)]

theorem functions_congr {m n : Model} (h : n.typeRule = m.typeRule) :
    (functions n).typeOwner = (functions m).typeOwner := by
  funext f
  simp only [typeOwner, functions, h]

theorem methods_congr {m n : Model} (h : n.typeRule = m.typeRule) :
    (methods n).typeOwner = (methods m).typeOwner := by
  funext f
  simp only [typeOwner, methods, h]

end Owners

namespace Model

theorem bindFunction_bindFunction (scope : Scope) (f : Function) :
    bindFunction scope (bindFunction scope f).1 = bindFunction scope f := by
  simp only [bindFunction, (Expr.bindAll_bindAll (fun _ h => h) f.body).1]

theorem bindFunction_typeOwner (m : Model) (scope : Scope) (f : Function) :
    bindFunction scope ((Owners.functions m).typeOwner f).1 =
      ({ (bindFunction scope f).1 with parameters := ((Owners.functions m).typeOwner f).1.parameters },
        (bindFunction scope f).2) := by
  have hb := Expr.bindAll_congr scope (parameterIndex?_mapUntil_typeStep m.typeRule f.parameters) f.body
  simp only [bindFunction, Owners.typeOwner, Owners.functions, hb]

/-- The model with the headings of its functions and methods alone and without ROS calls. -/
def headings (m : Model) : Model :=
  { m with
    functions := m.functions.map fun f => ⟨f.toEntity, [], []⟩
    methods := m.methods.map fun f => ⟨f.toEntity, []⟩
    rosCalls := .empty }

def bodyCalls (m : Model) : List RosCall := m.functions.flatMap fun f => Expr.rosCallsOf f.body

variable {m n : Model}

theorem headings_untyped (m : Model) : m.untyped.headings = m.headings := by
  simp only [headings, untyped, List.map_map]
  rfl

theorem headings_unbound (m : Model) : m.unbound.headings = m.headings := by
  simp only [headings, unbound, List.map_map]
  rfl

theorem headings_resolveParameters (h : m.IsNumbered) : m.resolveParameters.1.headings = m.headings := by
  rw [← headings_untyped, untyped_resolveParameters h, headings_untyped]

theorem headings_resolveExpressions (m : Model) : m.resolveExpressions.1.headings = m.headings := by
  rw [← headings_unbound, unbound_resolveExpressions]
  exact m.headings_unbound

theorem typeRule_of_headings (h : n.headings = m.headings) : n.typeRule = m.typeRule := by
  change n.headings.typeRule = m.headings.typeRule
  rw [h]

theorem ofModel_headings (m : Model) : Scope.ofModel m.headings = Scope.ofModel m := by
  simp only [Scope.ofModel, headings, List.map_map]
  rfl

theorem scope_of_headings (h : n.headings = m.headings) : Scope.ofModel n = Scope.ofModel m := by
  rw [← ofModel_headings n, h, ofModel_headings]

theorem duplicateError_headings (m : Model) : m.headings.duplicateError = m.duplicateError := by
  simp only [duplicateError, headings, List.map_map]
  rfl

theorem duplicateError_of_headings (h : n.headings = m.headings) : n.duplicateError = m.duplicateError := by
  rw [← duplicateError_headings n, h, duplicateError_headings]

/-- The pass over the functions of a model, in the scope of another one with the same headings. -/
theorem resolveExpressions_of_headings (h : n.headings = m.headings) :
    n.resolveExpressions =
      ({ n with
          functions := (mapUntil (bindFunction (Scope.ofModel m)) n.functions).1
          rosCalls :=
            if (mapUntil (bindFunction (Scope.ofModel m)) n.functions).2.isSome then n.rosCalls
            else n.rosCalls.insertAll n.bodyCalls },
        (mapUntil (bindFunction (Scope.ofModel m)) n.functions).2) := by
  rw [resolveExpressions, scope_of_headings h]
  rcases mapUntil (bindFunction (Scope.ofModel m)) n.functions with ⟨functions, _ | e⟩ <;> rfl

theorem resolveParameters_of_headings (hn : n.IsNumbered) (h : n.headings = m.headings) :
    n.resolveParameters =
      ({ n with
          functions := (mapUntil (Owners.functions m).typeOwner n.functions).1
          methods :=
            if (mapUntil (Owners.functions m).typeOwner n.functions).2.isSome then n.methods
            else (mapUntil (Owners.methods m).typeOwner n.methods).1 },
        (mapUntil (Owners.functions m).typeOwner n.functions).2.or
          (mapUntil (Owners.methods m).typeOwner n.methods).2) := by
  have hr := typeRule_of_headings h
  rw [resolveParameters_eq hn, Owners.functions_congr hr, Owners.methods_congr hr]
  rcases mapUntil (Owners.functions m).typeOwner n.functions with ⟨functions, _ | e⟩ <;> rfl

theorem bodyCalls_untyped (m : Model) : m.untyped.bodyCalls = m.bodyCalls := by
  simp only [bodyCalls, untyped, List.flatMap_map]

theorem bodyCalls_unbound (m : Model) : m.unbound.bodyCalls = m.bodyCalls := by
  simp only [bodyCalls, unbound, List.flatMap_map, Function.unbound, Expr.rosCallsOf_shapes]

theorem bodyCalls_resolveParameters (h : m.IsNumbered) :
    m.resolveParameters.1.bodyCalls = m.bodyCalls := by
  rw [← bodyCalls_untyped, untyped_resolveParameters h, bodyCalls_untyped]

theorem bodyCalls_resolveExpressions (m : Model) : m.resolveExpressions.1.bodyCalls = m.bodyCalls := by
  rw [← bodyCalls_unbound, unbound_resolveExpressions]
  exact m.bodyCalls_unbound

theorem isNumbered_resolveParameters (h : m.IsNumbered) : m.resolveParameters.1.IsNumbered :=
  (changes_resolveParameters (T := fun _ _ => True) (fun _ _ _ _ => trivial) m).keeps Change.isNumbered h

theorem isNumbered_resolveExpressions (h : m.IsNumbered) : m.resolveExpressions.1.IsNumbered :=
  (changes_resolveExpressions (T := fun _ _ => True) m).keeps Change.isNumbered h

theorem resolveParameters_resolveParameters (h : m.IsNumbered) :
    m.resolveParameters.1.resolveParameters = m.resolveParameters := by
  have hf := mapUntil_mapUntil (Owners.functions m).typeOwner
    ((Owners.functions m).typeOwner_typeOwner fun _ _ => typeRule_ne_unresolved) m.functions
  have hm := mapUntil_mapUntil (Owners.methods m).typeOwner
    ((Owners.methods m).typeOwner_typeOwner fun _ _ => typeRule_ne_unresolved) m.methods
  rw [resolveParameters_of_headings (isNumbered_resolveParameters h) (headings_resolveParameters h),
    resolveParameters_of_headings h rfl]
  cases he : (mapUntil (Owners.functions m).typeOwner m.functions).2 with
  | none => simp only [hf, hm, he, Option.isSome_none, Bool.false_eq_true, if_false]
  | some e => simp only [hf, he, Option.isSome_some, if_true, Option.some_or]

theorem resolveExpressions_resolveExpressions (h : CallRegistry.Ascending m.rosCalls.calls) :
    m.resolveExpressions.1.resolveExpressions = m.resolveExpressions := by
  have hf := mapUntil_mapUntil _ (bindFunction_bindFunction (Scope.ofModel m)) m.functions
  have hc := m.bodyCalls_resolveExpressions
  rw [resolveExpressions_of_headings m.headings_resolveExpressions, hc,
    resolveExpressions_of_headings rfl]
  cases he : (mapUntil (bindFunction (Scope.ofModel m)) m.functions).2 with
  | none =>
      simp only [hf, he, Option.isSome_none, Bool.false_eq_true, if_false,
        CallRegistry.insertAll_insertAll h]
  | some e => simp only [hf, he, Option.isSome_some, if_true]

theorem outcome_bindFunction_typeOwner (m : Model) (scope : Scope) (f : Function) :
    (bindFunction scope ((Owners.functions m).typeOwner f).1).2 = (bindFunction scope f).2 := by
  rw [bindFunction_typeOwner]

theorem bindFunction_typeOwner_comm (m : Model) (scope : Scope) (f : Function) :
    (bindFunction scope ((Owners.functions m).typeOwner f).1).1 =
      ((Owners.functions m).typeOwner (bindFunction scope f).1).1 := by
  rw [bindFunction_typeOwner]
  rfl

theorem outcome_resolveExpressions_resolveParameters (h : m.IsNumbered) :
    m.resolveParameters.1.resolveExpressions.2 = m.resolveExpressions.2 := by
  rw [resolveExpressions_of_headings (headings_resolveParameters h), resolveExpressions_of_headings rfl,
    resolveParameters_of_headings h rfl]
  exact snd_mapUntil_mapUntil _ _ (outcome_bindFunction_typeOwner m _) m.functions

theorem outcome_resolveParameters_resolveExpressions (h : m.IsNumbered) :
    m.resolveExpressions.1.resolveParameters.2 = m.resolveParameters.2 := by
  have hf := snd_mapUntil_mapUntil (Owners.functions m).typeOwner (bindFunction (Scope.ofModel m))
    (fun _ => rfl) m.functions
  rw [resolveParameters_of_headings (isNumbered_resolveExpressions h) m.headings_resolveExpressions,
    resolveParameters_of_headings h rfl, resolveExpressions_of_headings rfl]
  simp only [hf]

/-- Parameters and bodies can be resolved in either order, also if one of the passes or both of them
stop on their way. -/
theorem resolveExpressions_resolveParameters_comm (h : m.IsNumbered) :
    m.resolveParameters.1.resolveExpressions.1 = m.resolveExpressions.1.resolveParameters.1 := by
  have hcomm := mapUntil_comm (bindFunction (Scope.ofModel m)) (Owners.functions m).typeOwner
    (outcome_bindFunction_typeOwner m _) (fun _ => rfl) (bindFunction_typeOwner_comm m _) m.functions
  have hb := snd_mapUntil_mapUntil _ _ (outcome_bindFunction_typeOwner m (Scope.ofModel m)) m.functions
  have ht := snd_mapUntil_mapUntil (Owners.functions m).typeOwner (bindFunction (Scope.ofModel m))
    (fun _ => rfl) m.functions
  have hc := bodyCalls_resolveParameters h
  rw [resolveExpressions_of_headings (headings_resolveParameters h), hc,
    resolveParameters_of_headings (isNumbered_resolveExpressions h) m.headings_resolveExpressions,
    resolveParameters_of_headings h rfl, resolveExpressions_of_headings rfl]
  simp only [hcomm, hb, ht]

end Model

namespace Stage

def after (stages : List Stage) (m : Model) : Model := stages.foldl (fun m stage => (stage.run m).1) m

variable {m : Model}

theorem headings_run (h : m.IsNumbered) (s : Stage) : (s.run m).1.headings = m.headings := by
  cases s with
  | duplicates => rfl
  | parameters => exact Model.headings_resolveParameters h
  | expressions => exact m.headings_resolveExpressions

theorem run_run_self (h : Reachable m) (s : Stage) : s.run (s.run m).1 = s.run m := by
  cases s with
  | duplicates => rfl
  | parameters => exact Model.resolveParameters_resolveParameters h.isNumbered
  | expressions => exact Model.resolveExpressions_resolveExpressions h.ascending

theorem outcome_run_run (h : Reachable m) (s t : Stage) : (s.run (t.run m).1).2 = (s.run m).2 := by
  cases s with
  | duplicates => exact Model.duplicateError_of_headings (headings_run h.isNumbered t)
  | parameters =>
      cases t with
      | duplicates => rfl
      | parameters => rw [run_run_self h]
      | expressions => exact Model.outcome_resolveParameters_resolveExpressions h.isNumbered
  | expressions =>
      cases t with
      | duplicates => rfl
      | parameters => exact Model.outcome_resolveExpressions_resolveParameters h.isNumbered
      | expressions => rw [run_run_self h]

theorem run_comm (h : Reachable m) (s t : Stage) : (s.run (t.run m).1).1 = (t.run (s.run m).1).1 := by
  have hcomm := Model.resolveExpressions_resolveParameters_comm h.isNumbered
  cases s <;> cases t
  case parameters.expressions => exact hcomm.symm
  case expressions.parameters => exact hcomm
  all_goals rfl

end Stage

namespace Reachable

variable {m : Model}

theorem run (h : Reachable m) (s : Stage) : Reachable (s.run m).1 := by
  have hr : (Stage.runAll [s] m).1 = (s.run m).1 := by
    rw [Stage.runAll]
    rcases s.run m with ⟨n, _ | e⟩ <;> rfl
  exact hr ▸ h.edit ⟨.root, []⟩ (.run [s]) Expr.unbound_nil trivial

theorem outcome_after (h : Reachable m) (before : List Stage) (s : Stage) :
    (s.run (Stage.after before m)).2 = (s.run m).2 := by
  induction before generalizing m with
  | nil => rfl
  | cons t before ih => exact (ih (h.run t)).trans (Stage.outcome_run_run h s t)

theorem run_after (h : Reachable m) (s : Stage) (stages : List Stage) :
    (s.run (Stage.after stages m)).1 = Stage.after stages (s.run m).1 := by
  induction stages generalizing m with
  | nil => rfl
  | cons t stages ih => exact (ih (h.run t)).trans (congrArg (Stage.after stages) (Stage.run_comm h s t))

theorem after_run_of_mem (h : Reachable m) {s : Stage} {stages : List Stage} (hs : s ∈ stages) :
    Stage.after stages (s.run m).1 = Stage.after stages m := by
  induction stages generalizing m with
  | nil => cases hs
  | cons t stages ih =>
      rcases List.mem_cons.1 hs with rfl | hs
      · exact congrArg (fun r => Stage.after stages r.1) (Stage.run_run_self h s)
      · calc Stage.after (t :: stages) (s.run m).1
            = Stage.after stages (s.run (t.run m).1).1 := by rw [Stage.run_comm h s t]; rfl
          _ = Stage.after (t :: stages) m := ih (h.run t) hs

theorem after_after_of_subset (h : Reachable m) {ss ts : List Stage} (hs : ∀ s ∈ ss, s ∈ ts) :
    Stage.after ts (Stage.after ss m) = Stage.after ts m := by
  induction ss generalizing m with
  | nil => rfl
  | cons s ss ih =>
      obtain ⟨hmem, hss⟩ := List.forall_mem_cons.1 hs
      exact (ih (h.run s) hss).trans (h.after_run_of_mem hmem)

theorem after_comm (h : Reachable m) (ss ts : List Stage) :
    Stage.after ts (Stage.after ss m) = Stage.after ss (Stage.after ts m) := by
  induction ss generalizing m with
  | nil => rfl
  | cons s ss ih =>
      calc Stage.after ts (Stage.after ss (s.run m).1)
          = Stage.after ss (Stage.after ts (s.run m).1) := ih (h.run s)
        _ = Stage.after (s :: ss) (Stage.after ts m) := by rw [← h.run_after]; rfl

/-- The stages of a model that can be reached commute and are idempotent, failures included. Which
model some stages lead to depends only on which of them occur, and a stage ends in the same way
wherever it stands among others. -/
theorem stages_commute (h : Reachable m) :
    (∀ ss ts : List Stage, (∀ s, s ∈ ss ↔ s ∈ ts) → Stage.after ss m = Stage.after ts m) ∧
      ∀ (before : List Stage) (s : Stage), (s.run (Stage.after before m)).2 = (s.run m).2 := by
  refine ⟨fun ss ts hst => ?_, h.outcome_after⟩
  calc Stage.after ss m
      = Stage.after ss (Stage.after ts m) := (h.after_after_of_subset fun s => (hst s).2).symm
    _ = Stage.after ts (Stage.after ss m) := (h.after_comm ss ts).symm
    _ = Stage.after ts m := h.after_after_of_subset fun s => (hst s).1

theorem stages_commute_go :
    let m := ((Model.empty.addType "pose" none).addFunction "go" [⟨"to", .unresolved "pose" none, none⟩]
      [.reference "to" none none] none).addFunction "go" [⟨"by", .unresolved "route" none, none⟩]
      [.ros .publish "moved" [] none, .reference "speed" none none] none
    Reachable m ∧
      Stage.after [.expressions, .duplicates, .expressions, .parameters] m =
        Stage.after [.parameters, .duplicates, .expressions] m ∧
      (Stage.duplicates.run (Stage.after [.parameters, .expressions] m)).2 =
        some (.duplicate (some "function") "go" none none) ∧
      (Stage.parameters.run (Stage.after [.expressions, .parameters] m)).2 =
        some (.unresolved "type 'route'" none) ∧
      (Stage.expressions.run (Stage.after [.expressions, .parameters] m)).2 =
        some (.unresolved "identifier 'speed'" none) := by
  intro m
  let t : Files.Tree := ⟨.root, []⟩
  have hempty : Reachable .empty := .empty
  have hm : Reachable m := hempty.applyAll t [.addType "pose" none,
    .addFunction "go" [⟨"to", .unresolved "pose" none, none⟩] [.reference "to" none none] none,
    .addFunction "go" [⟨"by", .unresolved "route" none, none⟩]
      [.ros .publish "moved" [] none, .reference "speed" none none] none] (by decide)
  obtain ⟨hsame, houtcome⟩ := stages_commute hm
  refine ⟨hm, hsame _ _ fun s => ?_, ?_, ?_, ?_⟩
  · cases s <;> decide
  · rw [houtcome]
    decide
  · rw [houtcome]
    decide
  · rw [houtcome]
    decide

end Reachable

end RobotLang
