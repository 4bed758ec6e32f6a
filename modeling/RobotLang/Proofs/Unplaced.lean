import RobotLang.Build
import RobotLang.Model.Text
import RobotLang.Proofs.FirstFailure
import RobotLang.Proofs.NameLookup

namespace RobotLang

def ParamType.unplaced : ParamType → ParamType
  | unresolved name _ => unresolved name none
  | undefined => undefined
  | boolean => boolean
  | skillset id => skillset id
  | imported id => imported id
  | declared id => declared id
  | abstract => abstract

def Parameter.unplaced (p : Parameter) : Parameter := ⟨p.name, p.type.unplaced, none⟩

def Entity.unplaced {kind : Kind} (e : Entity kind) : Entity kind := { e with position := none }

namespace Expr

mutual

def unplaced : Expr → Expr
  | literal value _ => literal value none
  | reference name target _ => reference name target none
  | call name args target _ => call name (unplacedAll args) target none
  | ros kind topic args _ => ros kind topic (unplacedAll args) none
  | abstract => abstract

def unplacedAll : List Expr → List Expr
  | [] => []
  | e :: es => unplaced e :: unplacedAll es

end

end Expr

def Function.unplaced (f : Function) : Function :=
  ⟨f.toEntity.unplaced, f.parameters.map Parameter.unplaced, Expr.unplacedAll f.body⟩

def Method.unplaced (f : Method) : Method := ⟨f.toEntity.unplaced, f.parameters.map Parameter.unplaced⟩

/-- The model without positions, but for those of the imported entries. -/
def Model.unplaced (m : Model) : Model :=
  { m with
    robots := m.robots.map Entity.unplaced
    types := m.types.map Entity.unplaced
    functions := m.functions.map Function.unplaced
    methods := m.methods.map Method.unplaced }

def Skillset.unplaced (s : Skillset) : Skillset := ⟨s.toEntity.unplaced, s.skills⟩

def Imported.unplaced (m : Imported) : Imported := ⟨m.types.map Entity.unplaced, m.skillsets.map Skillset.unplaced⟩

def Error.unplaced : Error → Error
  | duplicate kind name _ _ => duplicate kind name none none
  | unresolved element _ => unresolved element none
  | e => e

/-! ### Binding -/

section Scope

variable {kind : Kind}

theorem entered_map_unplaced (target : EntityId kind → Target) (entries : List (Entity kind))
    (scope : List (String × Target)) :
    Scope.entered target (entries.map Entity.unplaced) scope = Scope.entered target entries scope := by
  simp only [Scope.entered, List.foldl_map, Entity.unplaced]

theorem scanFor_map_unplaced (name : String) (type : EntityId kind → ParamType)
    (entries : List (Entity kind)) (found : Option ParamType) :
    Model.scanFor name type (entries.map Entity.unplaced) found = Model.scanFor name type entries found := by
  rw [Model.scanFor, List.foldl_map]
  rfl

end Scope

theorem toEntity_functions_unplaced (m : Model) :
    m.unplaced.functions.map (·.toEntity) = (m.functions.map (·.toEntity)).map Entity.unplaced := by
  simp only [Model.unplaced, List.map_map, Function.comp_def, Function.unplaced]

theorem toEntity_methods_unplaced (m : Model) :
    m.unplaced.methods.map (·.toEntity) = (m.methods.map (·.toEntity)).map Entity.unplaced := by
  simp only [Model.unplaced, List.map_map, Function.comp_def, Method.unplaced]

theorem ofModel_unplaced (m : Model) : Scope.ofModel m.unplaced = Scope.ofModel m := by
  simp only [Scope.ofModel, toEntity_functions_unplaced, toEntity_methods_unplaced, entered_map_unplaced]
  simp only [Model.unplaced, entered_map_unplaced]

theorem parameterIndex?_map_unplaced (ps : List Parameter) (name : String) :
    parameterIndex? (ps.map Parameter.unplaced) name = parameterIndex? ps name := by
  simp only [parameterIndex?, List.findIdx?_map, Function.comp_def, Parameter.unplaced]

namespace Expr

variable (scope : Scope) (ps : List Parameter)

theorem valueTarget_map_unplaced (name : String) :
    valueTarget scope (ps.map Parameter.unplaced) name = valueTarget scope ps name := by
  simp only [valueTarget, parameterIndex?_map_unplaced]

mutual

theorem bind_unplaced : ∀ e : Expr, bind scope (ps.map Parameter.unplaced) e.unplaced =
    ((bind scope ps e).1.unplaced, (bind scope ps e).2.map Error.unplaced)
  | literal .. | abstract => rfl
  | reference name target position => by
      simp only [unplaced, bind, valueTarget_map_unplaced]
      cases valueTarget scope ps name <;> rfl
  | call name args target position => by
      simp only [unplaced, bind, bindAll_unplaced args]
      cases scope.callable? name <;> rfl
  | ros kind topic args position => by
      simp only [unplaced, bind, bindAll_unplaced args]

theorem bindAll_unplaced : ∀ es : List Expr, bindAll scope (ps.map Parameter.unplaced) (unplacedAll es) =
    (unplacedAll (bindAll scope ps es).1, (bindAll scope ps es).2.map Error.unplaced)
  | [] => rfl
  | e :: es => by
      simp only [unplacedAll, bindAll, bind_unplaced e, bindAll_unplaced es]
      rcases bind scope ps e with ⟨b, _ | error⟩ <;> rfl

end

mutual

theorem rosCalls_unplaced : ∀ e : Expr, e.unplaced.rosCalls = e.rosCalls
  | literal .. | reference .. | abstract => rfl
  | call _ args _ _ => rosCallsOf_unplacedAll args
  | ros _ _ args _ => by simp only [unplaced, rosCalls, rosCallsOf_unplacedAll args]

theorem rosCallsOf_unplacedAll : ∀ es : List Expr, rosCallsOf (unplacedAll es) = rosCallsOf es
  | [] => rfl
  | e :: es => by simp only [unplacedAll, rosCallsOf, rosCalls_unplaced e, rosCallsOf_unplacedAll es]

end

end Expr

namespace Model

theorem resolveExpressions_unplaced (m : Model) :
    m.unplaced.resolveExpressions =
      (m.resolveExpressions.1.unplaced, m.resolveExpressions.2.map Error.unplaced) := by
  have hf : mapUntil (bindFunction (Scope.ofModel m)) (m.functions.map Function.unplaced) =
      ((mapUntil (bindFunction (Scope.ofModel m)) m.functions).1.map Function.unplaced,
        (mapUntil (bindFunction (Scope.ofModel m)) m.functions).2.map Error.unplaced) := by
    refine mapUntil_map _ _ _ _ (fun f => ?_) m.functions
    simp only [bindFunction, Function.unplaced, Expr.bindAll_unplaced]
  have hc : (m.functions.map Function.unplaced).flatMap (fun f => Expr.rosCallsOf f.body) =
      m.functions.flatMap fun f => Expr.rosCallsOf f.body := by
    simp only [List.flatMap_map, Function.unplaced, Expr.rosCallsOf_unplacedAll]
  rw [resolveExpressions, resolveExpressions, ofModel_unplaced,
    show m.unplaced.functions = m.functions.map Function.unplaced from rfl, hf, hc]
  rcases mapUntil (bindFunction (Scope.ofModel m)) m.functions with ⟨functions, _ | e⟩ <;> rfl

/-! ### Types -/

theorem resolveTypeName_unplaced (m : Model) (name : String) :
    m.unplaced.resolveTypeName name = m.resolveTypeName name := by
  simp only [resolveTypeName, unplaced, scanFor_map_unplaced]

theorem unplaced_of_resolveTypeName {m : Model} {name : String} {type : ParamType}
    (h : m.resolveTypeName name = some type) : type.unplaced = type := by
  rw [resolveTypeName_eq_typeRule] at h
  simp only [typeRule, Option.or_eq_some_iff, Option.map_eq_some_iff] at h
  rcases h with ⟨t, -, rfl⟩ | ⟨-, ⟨t, -, rfl⟩ | ⟨-, s, -, rfl⟩⟩ <;> rfl

theorem find?_map {α β : Type} {kind : Kind} (id : EntityId kind) (g : α → β) (as : List α) :
    id.find? (as.map g) = (id.find? as).map g := by
  simp only [EntityId.find?, List.getElem?_map]
  split <;> rfl

theorem retyped_map_unplaced {type : ParamType} (ht : type.unplaced = type) (ps : List Parameter) (i : Nat) :
    retyped (ps.map Parameter.unplaced) i type = (retyped ps i type).map Parameter.unplaced := by
  induction ps generalizing i with
  | nil => cases i <;> rfl
  | cons p ps ih =>
      cases i with
      | zero => simp [retyped, Parameter.unplaced, ht]
      | succ i => simpa [retyped] using ih i

theorem retypeAt_unplaced (m : Model) (owner : Key) (i : Nat) {type : ParamType}
    (ht : type.unplaced = type) :
    m.unplaced.retypeAt owner i type = (m.retypeAt owner i type).map unplaced := by
  rcases owner with ⟨_ | _ | _ | _ | _ | _, id⟩ | n | s | _ <;>
    simp only [retypeAt, editParameters, Except.map]
  · have hf : id.find? m.unplaced.functions = (id.find? m.functions).map Function.unplaced :=
      find?_map id Function.unplaced m.functions
    rw [hf]
    cases id.find? m.functions with
    | none => rfl
    | some f =>
        simp only [Option.map_some, setFunction, unplaced, List.map_set, Function.unplaced,
          retyped_map_unplaced ht]
  · have hf : id.find? m.unplaced.methods = (id.find? m.methods).map Method.unplaced :=
      find?_map id Method.unplaced m.methods
    rw [hf]
    cases id.find? m.methods with
    | none => rfl
    | some f =>
        simp only [Option.map_some, setMethod, unplaced, List.map_set, Method.unplaced,
          retyped_map_unplaced ht]

def Slot.unplaced (s : Slot) : Slot := { s with parameter := s.parameter.unplaced }

theorem slotsOf_map_unplaced (owner : Key) (ps : List Parameter) :
    slotsOf owner (ps.map Parameter.unplaced) = (slotsOf owner ps).map Slot.unplaced := by
  apply List.ext_getElem?
  intro i
  simp only [slotsOf, List.getElem?_mapIdx, List.getElem?_map, Option.map_map, Function.comp_def,
    Slot.unplaced]

theorem slots_unplaced (m : Model) : m.unplaced.slots = m.slots.map Slot.unplaced := by
  simp only [slots, unplaced, List.flatMap_map, List.map_append, List.map_flatMap, Function.unplaced,
    Method.unplaced, slotsOf_map_unplaced]
  rfl

theorem unplaced_of_retypeAt {m : Model} {owner : Key} {i : Nat} {type : ParamType} {e : Error}
    (h : m.retypeAt owner i type = .error e) : e.unplaced = e := by
  rcases owner with ⟨_ | _ | _ | _ | _ | _, id⟩ | n | s | _ <;> simp only [retypeAt, editParameters] at h
  case function | method =>
    split at h
    · exact Except.error.inj h ▸ rfl
    · cases h
  all_goals exact Except.error.inj h ▸ rfl

theorem resolveSlot_unplaced (m : Model) (s : Slot) :
    resolveSlot m.unplaced s.unplaced =
      ((resolveSlot m s).1.unplaced, (resolveSlot m s).2.map Error.unplaced) := by
  rcases s with ⟨owner, i, name, type, position⟩
  cases type with
  | unresolved n q =>
      simp only [resolveSlot, Slot.unplaced, Parameter.unplaced, ParamType.unplaced, resolveTypeName_unplaced]
      cases hr : m.resolveTypeName n with
      | none => rfl
      | some type =>
          dsimp only
          rw [retypeAt_unplaced m owner i (unplaced_of_resolveTypeName hr)]
          cases he : m.retypeAt owner i type with
          | ok m' => rfl
          | error e => simp only [Except.map, Option.map_some, unplaced_of_retypeAt he]
  | undefined | boolean | skillset id | imported id | declared id | abstract => rfl

theorem resolveParameters_unplaced (m : Model) :
    m.unplaced.resolveParameters =
      (m.resolveParameters.1.unplaced, m.resolveParameters.2.map Error.unplaced) := by
  rw [resolveParameters, slots_unplaced]
  exact foldUntil_map resolveSlot resolveSlot unplaced Slot.unplaced Error.unplaced resolveSlot_unplaced m m.slots

/-! ### Duplicates -/

theorem entityCollision_map (label : String) (entries : List (String × Option Position)) :
    entityCollision label (entries.map fun e => (e.1, none)) =
      (entityCollision label entries).map Error.unplaced := by
  simp only [entityCollision, List.map_map, Function.comp_def]
  cases firstCollision (entries.map (·.1)) with
  | none => rfl
  | some c =>
      simp only [List.getElem?_map]
      cases entries[c.1]? <;> cases entries[c.2]? <;> rfl

theorem labels_map_unplaced {kind : Kind} (entities : List (Entity kind)) :
    labels (entities.map Entity.unplaced) = (labels entities).map fun e => (e.1, none) := by
  simp only [labels, List.map_map, Function.comp_def, Entity.unplaced]

theorem typeCollision_unplaced (m : Model) :
    m.unplaced.typeCollision = m.typeCollision.map Error.unplaced := by
  have ht : m.unplaced.types = m.types.map Entity.unplaced := rfl
  have hi : m.unplaced.imported = m.imported := rfl
  rw [typeCollision, typeCollision, ht, hi, labels_map_unplaced, entityCollision_map, List.find?_map]
  cases entityCollision "type" (labels m.types) with
  | some e => rfl
  | none =>
      simp only [Option.map_none, Option.orElse_none, Option.map_map]
      rfl

theorem includeCollision_unplaced (m : Model) :
    m.unplaced.includeCollision = m.includeCollision.map Error.unplaced := by
  have hi : m.unplaced.includes = m.includes := rfl
  rw [includeCollision, includeCollision, hi]
  cases firstCollision m.includes with
  | none => rfl
  | some c => cases hc : m.includes[c.1]? <;> simp only [hc] <;> rfl

theorem map_orElse {α β : Type} (g : α → β) (a b : Option α) : (a <|> b).map g = (a.map g <|> b.map g) := by
  cases a <;> rfl

theorem duplicateError_unplaced (m : Model) :
    m.unplaced.duplicateError = m.duplicateError.map Error.unplaced := by
  have hr : m.unplaced.robots = m.robots.map Entity.unplaced := rfl
  simp only [duplicateError, map_orElse, typeCollision_unplaced, includeCollision_unplaced, hr,
    toEntity_functions_unplaced, toEntity_methods_unplaced, labels_map_unplaced, entityCollision_map]

/-! ### Stages -/

theorem run_unplaced (stage : Stage) (m : Model) :
    stage.run m.unplaced = ((stage.run m).1.unplaced, (stage.run m).2.map Error.unplaced) := by
  cases stage with
  | duplicates => simp only [Stage.run, duplicateError_unplaced]
  | parameters => exact resolveParameters_unplaced m
  | expressions => exact resolveExpressions_unplaced m

theorem runAll_unplaced (stages : List Stage) (m : Model) :
    Stage.runAll stages m.unplaced =
      ((Stage.runAll stages m).1.unplaced, (Stage.runAll stages m).2.map Error.unplaced) := by
  induction stages generalizing m with
  | nil => rfl
  | cons stage stages ih =>
      rw [Stage.runAll, Stage.runAll, run_unplaced]
      rcases stage.run m with ⟨n, _ | e⟩
      · exact ih n
      · rfl

/-! ### Texts -/

theorem typeText_unplaced (m : Model) (type : ParamType) : m.unplaced.typeText type.unplaced = m.typeText type := by
  cases type with
  | declared id =>
      have ht : id.find? m.unplaced.types = (id.find? m.types).map Entity.unplaced :=
        find?_map id Entity.unplaced m.types
      simp only [ParamType.unplaced, typeText, ht]
      cases id.find? m.types <;> rfl
  | unresolved name position | undefined | boolean | skillset id | imported id | abstract => rfl

end Model

mutual

theorem Expr.text_unplaced : ∀ e : Expr, e.unplaced.text = e.text
  | .literal .. | .reference .. | .abstract => rfl
  | .call name args target position => by simp only [Expr.unplaced, Expr.text, Expr.texts_unplacedAll args]
  | .ros kind topic args position => by simp only [Expr.unplaced, Expr.text, Expr.texts_unplacedAll args]

theorem Expr.texts_unplacedAll : ∀ es : List Expr, Expr.texts (Expr.unplacedAll es) = Expr.texts es
  | [] => rfl
  | e :: es => by simp only [Expr.unplacedAll, Expr.texts, Expr.text_unplaced e, Expr.texts_unplacedAll es]

end

mutual

theorem Expr.isWritable_unplaced : ∀ e : Expr, e.unplaced.isWritable = e.isWritable
  | .literal .. | .reference .. | .abstract => rfl
  | .call _ args _ _ => areWritable_unplacedAll args
  | .ros _ _ args _ => areWritable_unplacedAll args

theorem Expr.areWritable_unplacedAll : ∀ es : List Expr, Expr.areWritable (Expr.unplacedAll es) = Expr.areWritable es
  | [] => rfl
  | e :: es => by
      simp only [Expr.unplacedAll, Expr.areWritable, Expr.isWritable_unplaced e, Expr.areWritable_unplacedAll es]

end

theorem Expr.unplacedAll_eq_map (es : List Expr) : Expr.unplacedAll es = es.map Expr.unplaced := by
  induction es with
  | nil => rfl
  | cons e es ih => rw [Expr.unplacedAll, ih, List.map_cons]

namespace Model

theorem signatureText_unplaced (m : Model) (name : String) (ps : List Parameter) :
    m.unplaced.signatureText name (ps.map Parameter.unplaced) = m.signatureText name ps := by
  have hp : ∀ p : Parameter, m.unplaced.parameterText p.unplaced = m.parameterText p := fun p =>
    congrArg (p.name ++ ": " ++ ·) (typeText_unplaced m p.type)
  simp only [signatureText, List.map_map, Function.comp_def, hp]

theorem functionText_unplaced (m : Model) (f : Function) :
    m.unplaced.functionText f.unplaced = m.functionText f := by
  have hs : m.unplaced.signatureText f.unplaced.name f.unplaced.parameters = m.signatureText f.name f.parameters :=
    signatureText_unplaced m f.name f.parameters
  have hb : f.unplaced.body = f.body.map Expr.unplaced := Expr.unplacedAll_eq_map f.body
  have hl : ∀ e : Expr, bodyLine e.unplaced = bodyLine e := fun e =>
    congrArg ("    " ++ · ++ ";") e.text_unplaced
  simp only [functionText, hs, hb, List.map_eq_nil_iff, List.map_map, Function.comp_def, hl]

/-- Positions are not written. -/
theorem text_unplaced (m : Model) : m.unplaced.text = m.text := by
  have hm : ∀ f : Method, m.unplaced.methodText f.unplaced = m.methodText f := by
    intro f
    exact congrArg ("method " ++ ·) (signatureText_unplaced m f.name f.parameters)
  have hr : m.unplaced.robots = m.robots.map Entity.unplaced := rfl
  have ht : m.unplaced.types = m.types.map Entity.unplaced := rfl
  have hf : m.unplaced.functions = m.functions.map Function.unplaced := rfl
  have hme : m.unplaced.methods = m.methods.map Method.unplaced := rfl
  have hi : m.unplaced.includes = m.includes := rfl
  simp only [text, hr, ht, hf, hme, hi, List.map_map, Function.comp_def, functionText_unplaced, hm]
  rfl

theorem isWritable_unplaced (m : Model) : m.unplaced.isWritable = m.isWritable := by
  have hp : ∀ ps : List Parameter, parametersWritable (ps.map Parameter.unplaced) = parametersWritable ps := by
    intro ps
    simp only [parametersWritable, List.all_map, Function.comp_def]
    congr 1
    funext p
    cases hty : p.type <;> simp only [Parameter.unplaced, hty] <;> rfl
  simp only [isWritable, unplaced, List.all_map, Function.comp_def, Function.unplaced, Method.unplaced, hp,
    Expr.areWritable_unplacedAll]

theorem text?_unplaced (m : Model) : m.unplaced.text? = m.text? := by
  rw [text?, text?, isWritable_unplaced, text_unplaced]

theorem loadIncludes_unplaced (t : Files.Tree) (base : String) (m : Model) :
    m.unplaced.loadIncludes t base = ((m.loadIncludes t base).1.unplaced, (m.loadIncludes t base).2) := rfl

end Model

end RobotLang
