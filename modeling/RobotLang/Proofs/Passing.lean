import RobotLang.Proofs.BindingRule
import RobotLang.Proofs.TypeRule
import RobotLang.Stage

namespace RobotLang.Model

/-- One model is what another one becomes when it passes all stages, but for the ROS calls that are
registered. -/
structure Passes (m n : Model) : Prop where
  includes : n.includes = m.includes
  robots : n.robots = m.robots
  types : n.types = m.types
  imported : n.imported = m.imported
  functions : ∃ scope, n.functions = m.functions.map fun f =>
    (bindFunction scope { f with parameters := f.parameters.map m.typed }).1
  methods : n.methods = m.methods.map fun f => { f with parameters := f.parameters.map m.typed }
  typable : ∀ p ∈ m.parameters, m.Typable p

variable {m n : Model}

theorem mapUntil_typeStep_of_typable {ps : List Parameter} (h : ∀ p ∈ ps, m.Typable p) :
    mapUntil (typeStep m.typeRule) ps = (ps.map m.typed, none) :=
  mapUntil_eq_map_of_eq fun p hp => typeStep_of_typable (h p hp)

theorem typable_of_resolveParameters (hm : m.IsNumbered) (h : m.resolveParameters = (n, none)) :
    ∀ p ∈ m.parameters, m.Typable p := by
  have hs := resolveParameters_parameters hm
  rw [h] at hs
  intro p hp
  have hnone := (eq_map_of_mapUntil hs.symm).1 p hp
  cases hty : p.type with
  | unresolved name position =>
      by_cases hd : m.DeclaresType name
      · simpa only [Typable, hty] using hd
      · rw [typeStep_of_not_declares hty hd] at hnone
        cases hnone
  | undefined | boolean | skillset id | imported id | declared id | abstract => simp only [Typable, hty]

theorem resolveParameters_of_typable (hm : m.IsNumbered) (h : ∀ p ∈ m.parameters, m.Typable p) :
    m.resolveParameters =
      ({ m with
          functions := m.functions.map fun f => { f with parameters := f.parameters.map m.typed }
          methods := m.methods.map fun f => { f with parameters := f.parameters.map m.typed } }, none) := by
  have hf : ∀ f ∈ m.functions, (Owners.functions m).typeOwner f =
      ({ f with parameters := f.parameters.map m.typed }, none) := by
    intro f hf
    have hps : ∀ p ∈ f.parameters, m.Typable p := fun p hp =>
      h p (List.mem_append_left _ (List.mem_flatMap.2 ⟨f, hf, hp⟩))
    simp only [Owners.typeOwner, Owners.functions, mapUntil_typeStep_of_typable hps]
  have hme : ∀ f ∈ m.methods, (Owners.methods m).typeOwner f =
      ({ f with parameters := f.parameters.map m.typed }, none) := by
    intro f hf
    have hps : ∀ p ∈ f.parameters, m.Typable p := fun p hp =>
      h p (List.mem_append_right _ (List.mem_flatMap.2 ⟨f, hf, hp⟩))
    simp only [Owners.typeOwner, Owners.methods, mapUntil_typeStep_of_typable hps]
  rw [resolveParameters_eq hm, mapUntil_eq_map_of_eq hf, mapUntil_eq_map_of_eq hme]

theorem functions_of_resolveExpressions (h : m.resolveExpressions = (n, none)) :
    n = { m with
      functions := m.functions.map fun f => (bindFunction (Scope.ofModel m) f).1
      rosCalls := n.rosCalls } := by
  rw [resolveExpressions] at h
  rcases hb : mapUntil (bindFunction (Scope.ofModel m)) m.functions with ⟨functions, _ | e⟩ <;> rw [hb] at h
  · obtain ⟨rfl, -⟩ := Prod.mk.inj h
    rw [(eq_map_of_mapUntil hb).2]
  · cases (Prod.mk.inj h).2

theorem stages_of_runAll_check (h : Stage.runAll Stage.check m = (n, none)) :
    m.duplicateError = none ∧ ∃ l, m.resolveParameters = (l, none) ∧ l.resolveExpressions = (n, none) := by
  simp only [Stage.check, Stage.resolution, Stage.runAll, Stage.run] at h
  split at h
  next => cases (Prod.mk.inj h).2
  next m₁ hd =>
    obtain ⟨rfl, hnone⟩ := Prod.mk.inj hd
    split at h
    next => cases (Prod.mk.inj h).2
    next m₂ hp =>
      split at h
      next => cases (Prod.mk.inj h).2
      next m₃ he =>
        obtain ⟨rfl, -⟩ := Prod.mk.inj h
        exact ⟨hnone, m₂, hp, he⟩

theorem passes_of_runAll_check (hm : m.IsNumbered) (h : Stage.runAll Stage.check m = (n, none)) :
    m.Passes n := by
  obtain ⟨-, l, hp, he⟩ := stages_of_runAll_check h
  have ht := typable_of_resolveParameters hm hp
  have hn := functions_of_resolveExpressions he
  rw [resolveParameters_of_typable hm ht] at hp
  obtain ⟨rfl, -⟩ := Prod.mk.inj hp
  constructor
  case functions => exact ⟨_, by rw [hn, List.map_map]; rfl⟩
  case typable => exact ht
  all_goals rw [hn]

end RobotLang.Model
