import Mathlib.Logic.Relation
import RobotLang.Proofs.Occurrence
import RobotLang.Session

namespace RobotLang

open Files Relation

/-- One elementary change. A parameter type that is written satisfies `T` in the model as it is. -/
inductive Change (T : Model → ParamType → Prop) : Model → Model → Prop
  | addInclude (m file) : Change T m (m.addInclude file)
  | addRobot (m name position) : Change T m (m.addRobot name position)
  | addType (m name position) : Change T m (m.addType name position)
  | addFunction (m : Model) (name) (ps : List Parameter) (body position) (hb : Expr.Unbound body)
      (ht : ∀ p ∈ ps, T m p.type) : Change T m (m.addFunction name ps body position)
  | addMethod (m : Model) (name) (ps : List Parameter) (position) (ht : ∀ p ∈ ps, T m p.type) :
      Change T m (m.addMethod name ps position)
  | addImportedType (m : Model) (name position) :
      Change T m { m with imported := m.imported.addType name position }
  | addSkillset (m : Model) (name skills position) :
      Change T m { m with imported := m.imported.addSkillset name skills position }
  | addRosCall (m call) : Change T m (m.addRosCall call)
  | retypeFunction (m : Model) {id : EntityId .function} {f : Function}
      (hf : id.find? m.functions = some f) (i : Nat) (type : ParamType) (ht : T m type) :
      Change T m (m.setFunction id { f with parameters := Model.retyped f.parameters i type })
  | retypeMethod (m : Model) {id : EntityId .method} {f : Method}
      (hf : id.find? m.methods = some f) (i : Nat) (type : ParamType) (ht : T m type) :
      Change T m (m.setMethod id { f with parameters := Model.retyped f.parameters i type })
  | extendFunction (m : Model) {id : EntityId .function} {f : Function}
      (hf : id.find? m.functions = some f) (p : Parameter) (ht : T m p.type) :
      Change T m (m.setFunction f.id { f with parameters := f.parameters ++ [p] })
  | extendMethod (m : Model) {id : EntityId .method} {f : Method}
      (hf : id.find? m.methods = some f) (p : Parameter) (ht : T m p.type) :
      Change T m (m.setMethod f.id { f with parameters := f.parameters ++ [p] })
  | bind (m : Model) :
      Change T m { m with functions := (mapUntil (Model.bindFunction (Scope.ofModel m)) m.functions).1 }

abbrev Changes (T : Model → ParamType → Prop) : Model → Model → Prop := ReflTransGen (Change T)

variable {T : Model → ParamType → Prop}

namespace Changes

theorem keeps {P : Model → Prop} (h : ∀ {m m'}, Change T m m' → P m → P m') {m m' : Model}
    (hc : Changes T m m') (hm : P m) : P m' := by
  induction hc with
  | refl => exact hm
  | tail _ hstep ih => exact h hstep ih

theorem addAll (s : Source) (m : Model) (entries : List Grammar.SkillsetEntry) :
    Changes T m { m with imported := m.imported.addAll s entries } := by
  induction entries generalizing m with
  | nil => exact .refl
  | cons entry entries ih =>
      cases entry with
      | type mark name => exact .head (.addImportedType m name _) (ih _)
      | skillset mark name skills => exact .head (.addSkillset m name skills _) (ih _)

theorem load {m : Model} {s : Source} {imported : Imported} (h : m.imported.load s = .ok imported) :
    Changes T m { m with imported } := by
  obtain ⟨entries, -, rfl⟩ := Imported.load_eq_ok_iff.1 h
  exact addAll s m entries

theorem loadFile {t : Tree} {m : Model} {path : String} {imported : Imported}
    (h : m.imported.loadFile t path = .ok imported) : Changes T m { m with imported } := by
  simp only [Imported.loadFile, Imported.loadShown] at h
  split at h
  · cases h
  · exact load h

theorem loadFiles (t : Tree) (m : Model) (paths : List Path) :
    Changes T m { m with imported := (m.imported.loadFiles t paths).1 } := by
  induction paths generalizing m with
  | nil => exact .refl
  | cons p paths ih =>
      rw [Imported.loadFiles]
      split
      · exact .refl
      next imported h =>
        rw [Imported.loadInclude] at h
        split at h
        · cases h
        next s hs => exact ReflTransGen.trans (load h) (ih { m with imported })

theorem withImported {m : Model} {r : Except Error Imported}
    (h : ∀ imported, r = .ok imported → Changes T m { m with imported }) :
    Changes T m (Edit.withImported m r).1 := by
  cases r with
  | error e => exact .refl
  | ok imported => exact h imported rfl

theorem orKeep {m : Model} {r : Except Error Model} (h : ∀ m', r = .ok m' → Change T m m') :
    Changes T m (Edit.orKeep m r).1 := by
  cases r with
  | error e => exact .refl
  | ok m' => exact .single (h m' rfl)

end Changes

namespace Model

theorem editParameters_eq_ok {m m' : Model} {owner : Key}
    {edit : List Parameter → Except Error (List Parameter)} (h : m.editParameters owner edit = .ok m') :
    (∃ id f ps, id.find? m.functions = some f ∧ edit f.parameters = .ok ps ∧
        m' = m.setFunction id { f with parameters := ps }) ∨
      ∃ id f ps, id.find? m.methods = some f ∧ edit f.parameters = .ok ps ∧
        m' = m.setMethod id { f with parameters := ps } := by
  rcases owner with ⟨_ | _ | _ | _ | _ | _, id⟩ | n | s | _ <;>
    simp only [editParameters, reduceCtorEq] at h
  · split at h
    · cases h
    next f hf =>
      split at h
      · cases h
      next ps hps => exact .inl ⟨id, f, ps, hf, hps, (Except.ok.inj h).symm⟩
  · split at h
    · cases h
    next f hf =>
      split at h
      · cases h
      next ps hps => exact .inr ⟨id, f, ps, hf, hps, (Except.ok.inj h).symm⟩

theorem change_of_retyped {m m' : Model} {owner : Key} {type : ParamType} (ht : T m type)
    {edit : List Parameter → Except Error (List Parameter)}
    (he : ∀ ps qs, edit ps = .ok qs → ∃ i, qs = retyped ps i type)
    (h : m.editParameters owner edit = .ok m') : Change T m m' := by
  rcases editParameters_eq_ok h with ⟨id, f, ps, hf, hps, rfl⟩ | ⟨id, f, ps, hf, hps, rfl⟩
  · obtain ⟨i, rfl⟩ := he _ _ hps
    exact .retypeFunction m hf i type ht
  · obtain ⟨i, rfl⟩ := he _ _ hps
    exact .retypeMethod m hf i type ht

theorem change_retypeAt {m m' : Model} {owner : Key} {i : Nat} {type : ParamType} (ht : T m type)
    (h : m.retypeAt owner i type = .ok m') : Change T m m' :=
  change_of_retyped ht (fun _ _ he => ⟨i, (Except.ok.inj he).symm⟩) h

theorem change_setParameterType {m m' : Model} {owner : Key} {index : Int} {type : ParamType}
    (ht : T m type) (h : m.setParameterType owner index type = .ok m') : Change T m m' := by
  refine change_of_retyped ht (fun ps qs he => ?_) h
  cases ho : parameterOffset ps.length index with
  | error e => simp [ho, Except.map] at he
  | ok i =>
      simp only [ho, Except.map, Except.ok.injEq] at he
      exact ⟨i, he.symm⟩

theorem change_appendParameter {m m' : Model} {owner : Key} {p : Parameter} (ht : T m p.type)
    (h : m.appendParameter owner p = .ok m') : Change T m m' := by
  rcases owner with ⟨_ | _ | _ | _ | _ | _, id⟩ | n | s | _ <;>
    simp only [appendParameter, lookup, get?] at h
  case function =>
    cases hf : id.find? m.functions with
    | none => simp [hf] at h
    | some f =>
        simp only [hf, Option.map_some, Except.ok.injEq] at h
        exact h ▸ .extendFunction m hf p ht
  case method =>
    cases hf : id.find? m.methods with
    | none => simp [hf] at h
    | some f =>
        simp only [hf, Option.map_some, Except.ok.injEq] at h
        exact h ▸ .extendMethod m hf p ht
  case robot => cases hf : id.find? m.robots <;> simp [hf] at h
  case type => cases hf : id.find? m.types <;> simp [hf] at h
  all_goals cases h

/-- The types that names are looked up to may be written. -/
def WritesFound (T : Model → ParamType → Prop) : Prop :=
  ∀ m : Model, ∀ name type, m.resolveTypeName name = some type → T m type

theorem changes_resolveParameters (hr : WritesFound T) (m : Model) :
    Changes T m m.resolveParameters.1 := by
  refine foldUntil_keeps resolveSlot (fun n s hn => ?_) m.slots ReflTransGen.refl
  rw [resolveSlot]
  split
  · split
    · exact hn
    next type ht =>
      split
      next m' h => exact hn.tail (change_retypeAt (hr n _ type ht) h)
      · exact hn
  · exact hn

theorem changes_insertAll (m : Model) (calls : List RosCall) :
    Changes T m { m with rosCalls := m.rosCalls.insertAll calls } := by
  induction calls generalizing m with
  | nil => exact .refl
  | cons c calls ih => exact .head (.addRosCall m c) (ih (m.addRosCall c))

theorem changes_resolveExpressions (m : Model) : Changes T m m.resolveExpressions.1 := by
  have hb := Change.bind (T := T) m
  rw [resolveExpressions]
  rcases h : mapUntil (bindFunction (Scope.ofModel m)) m.functions with ⟨functions, _ | e⟩
  · rw [h] at hb
    exact .head hb (changes_insertAll { m with functions } _)
  · rw [h] at hb
    exact .single hb

theorem changes_stage (hr : WritesFound T) (stage : Stage) (m : Model) :
    Changes T m (stage.run m).1 := by
  cases stage with
  | duplicates => exact .refl
  | parameters => exact changes_resolveParameters hr m
  | expressions => exact changes_resolveExpressions m

theorem changes_runAll (hr : WritesFound T) (stages : List Stage) (m : Model) :
    Changes T m (Stage.runAll stages m).1 := by
  induction stages generalizing m with
  | nil => exact .refl
  | cons stage stages ih =>
      have hs := changes_stage hr stage m
      rw [Stage.runAll]
      rcases h : stage.run m with ⟨n, _ | e⟩
      · rw [h] at hs
        exact hs.trans (ih n)
      · rw [h] at hs
        exact hs

end Model

namespace Edit

def body : Edit → List Expr
  | addFunction _ _ body _ => body
  | _ => []

def types : Edit → List ParamType
  | addFunction _ ps _ _ | addMethod _ ps _ => ps.map (·.type)
  | setParameterType _ _ type => [type]
  | appendParameter _ p => [p.type]
  | _ => []

/-- Every edit is a row of elementary changes. -/
theorem changes_apply (hr : Model.WritesFound T) (t : Tree) (m : Model) (e : Edit)
    (hb : Expr.Unbound e.body) (ht : ∀ type ∈ e.types, T m type) : Changes T m (e.apply t m).1 := by
  cases e with
  | addInclude file => exact .single (.addInclude m file)
  | addRobot name position => exact .single (.addRobot m name position)
  | addType name position => exact .single (.addType m name position)
  | addFunction name ps body position =>
      exact .single (.addFunction m name ps body position hb fun p hp => ht _ (List.mem_map_of_mem hp))
  | addMethod name ps position =>
      exact .single (.addMethod m name ps position fun p hp => ht _ (List.mem_map_of_mem hp))
  | addImportedType name position => exact .single (.addImportedType m name position)
  | addSkillset name skills position => exact .single (.addSkillset m name skills position)
  | addRosCall call => exact .single (.addRosCall m call)
  | setParameterType owner index type =>
      exact Changes.orKeep fun m' h => Model.change_setParameterType (ht _ (by simp [types])) h
  | appendParameter owner p =>
      exact Changes.orKeep fun m' h => Model.change_appendParameter (ht _ (by simp [types])) h
  | loadSkillset text => exact Changes.withImported fun imported h => Changes.load h
  | loadSkillsetFile path => exact Changes.withImported fun imported h => Changes.loadFile h
  | loadIncludes base => exact Changes.loadFiles t m (m.includePaths t.home base)
  | run stages => exact Model.changes_runAll hr stages m

end Edit

end RobotLang
