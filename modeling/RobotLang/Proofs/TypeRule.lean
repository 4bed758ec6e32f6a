import RobotLang.Model.Text
import RobotLang.Proofs.Reachable

namespace RobotLang

namespace Model

variable (m : Model)

def parameters : List Parameter :=
  m.functions.flatMap (·.parameters) ++ m.methods.flatMap (·.parameters)

def typed (p : Parameter) : Parameter :=
  match p.type with
  | .unresolved name _ => { p with type := (m.typeRule name).getD p.type }
  | _ => p

def Typable (p : Parameter) : Prop :=
  match p.type with
  | .unresolved name _ => m.DeclaresType name
  | _ => True

end Model

def untypedParameters (ps : List Parameter) : List Parameter :=
  ps.map fun p => { p with type := .undefined }

def Model.untyped (m : Model) : Model :=
  { m with
    functions := m.functions.map fun f => { f with parameters := untypedParameters f.parameters }
    methods := m.methods.map fun f => { f with parameters := untypedParameters f.parameters } }

def typeStep (rule : String → Option ParamType) (p : Parameter) : Parameter × Option Error :=
  match p.type with
  | .unresolved name position =>
    match rule name with
    | some type => ({ p with type }, none)
    | none => (p, some (.unresolved s!"type '{name}'" position))
  | _ => (p, none)

theorem rest_typeStep (rule : String → Option ParamType) (p : Parameter) :
    ({ (typeStep rule p).1 with type := .undefined } : Parameter) = { p with type := .undefined } := by
  rw [typeStep]
  split
  · split <;> rfl
  · rfl

theorem untyped_typeStep (rule : String → Option ParamType) (ps : List Parameter) :
    untypedParameters (mapUntil (typeStep rule) ps).1 = untypedParameters ps :=
  map_mapUntil _ _ (rest_typeStep rule) ps

theorem Model.retyped_between (done rest : List Parameter) (p : Parameter) (type : ParamType) :
    retyped (done ++ p :: rest) done.length type = done ++ { p with type } :: rest := by
  induction done with
  | nil => rfl
  | cons q done ih => simpa [retyped] using ih

/-- One of the two stores of a model whose entries own parameters, with the rest of the model. -/
structure Owners (α : Type) (kind : Kind) where
  place : List α → Model
  rule : String → Option ParamType
  entity : α → Entity kind
  parameters : α → List Parameter
  having : α → List Parameter → α
  typeRule_place : ∀ as, (place as).typeRule = rule
  entity_having : ∀ a ps, entity (having a ps) = entity a
  parameters_having : ∀ a ps, parameters (having a ps) = ps
  having_having : ∀ a ps qs, having (having a ps) qs = having a qs
  having_parameters : ∀ a, having a (parameters a) = a
  retypeAt_key : ∀ {as : List α} {a : α} (i : Nat) (type : ParamType),
    (entity a).id.find? as = some a →
      (place as).retypeAt (.id kind (entity a).id) i type =
        .ok (place (as.set (entity a).id.index.toNat (having a (Model.retyped (parameters a) i type))))

namespace Owners

def functions (m : Model) : Owners Function .function where
  place := fun functions => { m with functions }
  rule := m.typeRule
  entity := (·.toEntity)
  parameters := (·.parameters)
  having := fun f parameters => { f with parameters }
  typeRule_place := fun _ => rfl
  entity_having := fun _ _ => rfl
  parameters_having := fun _ _ => rfl
  having_having := fun _ _ _ => rfl
  having_parameters := fun _ => rfl
  retypeAt_key := fun i type h => by
    simp [Model.retypeAt, Model.editParameters, Model.setFunction, h]

def methods (m : Model) : Owners Method .method where
  place := fun methods => { m with methods }
  rule := m.typeRule
  entity := (·.toEntity)
  parameters := (·.parameters)
  having := fun f parameters => { f with parameters }
  typeRule_place := fun _ => rfl
  entity_having := fun _ _ => rfl
  parameters_having := fun _ _ => rfl
  having_having := fun _ _ _ => rfl
  having_parameters := fun _ => rfl
  retypeAt_key := fun i type h => by
    simp [Model.retypeAt, Model.editParameters, Model.setMethod, h]

variable {α : Type} {kind : Kind} (S : Owners α kind)

def key (a : α) : Key := .id kind (S.entity a).id

def typeOwner (a : α) : α × Option Error :=
  (S.having a (mapUntil (typeStep S.rule) (S.parameters a)).1,
    (mapUntil (typeStep S.rule) (S.parameters a)).2)

theorem retypeAt_between {before after : List α} {a : α}
    (hn : Numbered ((before ++ a :: after).map S.entity)) (i : Nat) (type : ParamType) :
    (S.place (before ++ a :: after)).retypeAt (S.key a) i type =
      .ok (S.place (before ++ S.having a (Model.retyped (S.parameters a) i type) :: after)) := by
  have hid : (S.entity a).id = ⟨before.length⟩ := hn before.length (S.entity a) (by simp)
  rw [key, S.retypeAt_key i type (by rw [hid]; simp), hid]
  simp

theorem resolveSlot_between {before after : List α} {a : α}
    (hn : Numbered ((before ++ a :: after).map S.entity)) {done rest : List Parameter} {p : Parameter}
    (ha : S.parameters a = done ++ p :: rest) :
    Model.resolveSlot (S.place (before ++ a :: after)) ⟨S.key a, done.length, p⟩ =
      (S.place (before ++ S.having a (done ++ (typeStep S.rule p).1 :: rest) :: after),
        (typeStep S.rule p).2) := by
  have hself : S.having a (done ++ p :: rest) = a := by rw [← ha, S.having_parameters]
  rw [Model.resolveSlot, typeStep]
  cases p.type with
  | unresolved name position =>
      simp only [Model.resolveTypeName_eq_typeRule, S.typeRule_place]
      cases S.rule name with
      | none => simp only [hself]
      | some type => simp only [S.retypeAt_between hn, ha, Model.retyped_between]
  | undefined | boolean | skillset id | imported id | declared id | abstract => simp only [hself]

theorem foldUntil_slots (before after : List α) (a : α) (done rest : List Parameter)
    (hn : Numbered ((before ++ a :: after).map S.entity)) (ha : S.parameters a = done ++ rest) :
    foldUntil Model.resolveSlot (S.place (before ++ a :: after))
        (rest.mapIdx fun i p => ⟨S.key a, done.length + i, p⟩) =
      (S.place (before ++ S.having a (done ++ (mapUntil (typeStep S.rule) rest).1) :: after),
        (mapUntil (typeStep S.rule) rest).2) := by
  induction rest generalizing a done with
  | nil => simp [foldUntil, ← ha, S.having_parameters]
  | cons p rest ih =>
      rw [List.mapIdx_cons, foldUntil, mapUntil, Nat.add_zero, S.resolveSlot_between hn ha]
      rcases typeStep S.rule p with ⟨q, _ | e⟩
      · have hb := ih (S.having a (done ++ q :: rest)) (done ++ [q])
          (by simpa [S.entity_having] using hn) (by simp [S.parameters_having])
        simp only [key, S.entity_having, S.having_having, List.length_append, List.length_singleton,
          List.append_assoc, List.singleton_append] at hb
        simp only [key, Nat.add_comm _ 1, ← Nat.add_assoc] at hb ⊢
        exact hb
      · rfl

/-- The steps for all owners of a store, those of `as` being yet to come, are the pass over `as`. -/
theorem foldUntil_owners (before as : List α) (hn : Numbered ((before ++ as).map S.entity)) :
    foldUntil Model.resolveSlot (S.place (before ++ as))
        (as.flatMap fun a => Model.slotsOf (S.key a) (S.parameters a)) =
      (S.place (before ++ (mapUntil S.typeOwner as).1), (mapUntil S.typeOwner as).2) := by
  induction as generalizing before with
  | nil => rfl
  | cons a as ih =>
      have ha := S.foldUntil_slots before as a [] (S.parameters a) hn rfl
      simp only [List.length_nil, Nat.zero_add, List.nil_append] at ha
      rw [List.flatMap_cons, foldUntil_append, Model.slotsOf, ha, mapUntil, typeOwner]
      rcases mapUntil (typeStep S.rule) (S.parameters a) with ⟨ps, _ | e⟩
      · have hb := ih (before ++ [S.having a ps]) (by simpa [S.entity_having] using hn)
        simpa using hb
      · rfl

theorem parameters_mapUntil (as : List α) :
    ((mapUntil S.typeOwner as).1.flatMap S.parameters, (mapUntil S.typeOwner as).2) =
      mapUntil (typeStep S.rule) (as.flatMap S.parameters) :=
  mapUntil_flatMap _ _ _ (fun a => by simp only [typeOwner, S.parameters_having]) as

end Owners

namespace Model

variable {m : Model}

theorem foldUntil_functions (h : m.IsNumbered) :
    foldUntil resolveSlot m (m.functions.flatMap fun f => slotsOf (.id .function f.id) f.parameters) =
      ({ m with functions := (mapUntil (Owners.functions m).typeOwner m.functions).1 },
        (mapUntil (Owners.functions m).typeOwner m.functions).2) :=
  (Owners.functions m).foldUntil_owners [] m.functions h.functions

theorem foldUntil_methods (h : Numbered (m.methods.map (·.toEntity))) :
    foldUntil resolveSlot m (m.methods.flatMap fun f => slotsOf (.id .method f.id) f.parameters) =
      ({ m with methods := (mapUntil (Owners.methods m).typeOwner m.methods).1 },
        (mapUntil (Owners.methods m).typeOwner m.methods).2) :=
  (Owners.methods m).foldUntil_owners [] m.methods h

theorem resolveParameters_eq (h : m.IsNumbered) :
    m.resolveParameters =
      match mapUntil (Owners.functions m).typeOwner m.functions with
      | (functions, some e) => ({ m with functions }, some e)
      | (functions, none) =>
        ({ m with functions, methods := (mapUntil (Owners.methods m).typeOwner m.methods).1 },
          (mapUntil (Owners.methods m).typeOwner m.methods).2) := by
  rw [resolveParameters, slots, foldUntil_append, foldUntil_functions h]
  rcases mapUntil (Owners.functions m).typeOwner m.functions with ⟨functions, _ | e⟩
  · exact foldUntil_methods h.methods
  · rfl

theorem resolveParameters_parameters (h : m.IsNumbered) :
    (m.resolveParameters.1.parameters, m.resolveParameters.2) =
      mapUntil (typeStep m.typeRule) m.parameters := by
  have hf : (_, _) = mapUntil (typeStep m.typeRule) (m.functions.flatMap (·.parameters)) :=
    (Owners.functions m).parameters_mapUntil m.functions
  have hm : (_, _) = mapUntil (typeStep m.typeRule) (m.methods.flatMap (·.parameters)) :=
    (Owners.methods m).parameters_mapUntil m.methods
  rw [resolveParameters_eq h, show m.parameters = m.functions.flatMap _ ++ m.methods.flatMap _ from rfl,
    mapUntil_append, ← hf, ← hm]
  rcases mapUntil (Owners.functions m).typeOwner m.functions with ⟨functions, _ | e⟩ <;> rfl

theorem untyped_resolveParameters (h : m.IsNumbered) : m.resolveParameters.1.untyped = m.untyped := by
  have hf := map_mapUntil (Owners.functions m).typeOwner
    (fun f : Function => { f with parameters := untypedParameters f.parameters })
    (fun f => by simp only [Owners.typeOwner, Owners.functions, untyped_typeStep]) m.functions
  have hm := map_mapUntil (Owners.methods m).typeOwner
    (fun f : Method => { f with parameters := untypedParameters f.parameters })
    (fun f => by simp only [Owners.typeOwner, Owners.methods, untyped_typeStep]) m.methods
  rw [resolveParameters_eq h]
  rcases hu : mapUntil (Owners.functions m).typeOwner m.functions with ⟨functions, _ | e⟩ <;> rw [hu] at hf
  · simp only [untyped, hf, hm]
  · simp only [untyped, hf]

theorem typeText?_typeRule (h : m.IsNumbered) {name : String} {type : ParamType}
    (ht : m.typeRule name = some type) : m.typeText? type = some name := by
  simp only [typeRule, Option.or_eq_some_iff, Option.map_eq_some_iff] at ht
  rcases ht with ⟨t, hl, rfl⟩ | ⟨-, ⟨t, hl, rfl⟩ | ⟨-, s, hl, rfl⟩⟩ <;>
    obtain ⟨hmem, hn⟩ := mem_of_lastNamed hl
  · simp only [typeText?, ParamType.isWritable, typeText, h.types.find?_id hmem, hn, if_true]
  · simp only [typeText?, ParamType.isWritable, typeText, h.importedTypes.find?_id hmem, hn, if_true]
  · obtain ⟨s, hs, rfl⟩ := List.mem_map.1 hmem
    simp only [typeText?, ParamType.isWritable, typeText, h.skillsets.find?_of_mem hs, if_true]
    exact congrArg some hn

theorem typeText?_congr {m n : Model} (ht : m.types = n.types) (hi : m.imported = n.imported)
    (type : ParamType) : m.typeText? type = n.typeText? type := by
  cases type <;> simp only [typeText?, typeText, ht, hi]

theorem typeStep_of_typable {p : Parameter} (h : m.Typable p) :
    typeStep m.typeRule p = (m.typed p, none) := by
  rw [typeStep, typed]
  rw [Typable] at h
  split at h
  next name position hp =>
    obtain ⟨type, ht⟩ := Option.isSome_iff_exists.1 ((m.isSome_typeRule_iff name).2 h)
    simp only [hp, ht, Option.getD_some]
  next hp =>
    cases ht : p.type with
    | unresolved name position => exact absurd ht (hp name position)
    | _ => rfl

theorem typeStep_of_not_declares {p : Parameter} {name : String} {position : Option Position}
    (hp : p.type = .unresolved name position) (h : ¬ m.DeclaresType name) :
    typeStep m.typeRule p = (p, some (.unresolved s!"type '{name}'" position)) := by
  rw [← isSome_typeRule_iff, Option.not_isSome_iff_eq_none] at h
  simp only [typeStep, hp, h]

theorem typed_eq_of_typable (hn : m.IsNumbered) {p : Parameter} {name : String}
    {position : Option Position} (hp : p.type = .unresolved name position) (h : m.Typable p) :
    ∃ type, m.typeRule name = some type ∧ m.typed p = { p with type } ∧ m.typeText? type = some name := by
  simp only [Typable, hp] at h
  obtain ⟨type, ht⟩ := Option.isSome_iff_exists.1 ((m.isSome_typeRule_iff name).2 h)
  exact ⟨type, ht, by simp only [typed, hp, ht, Option.getD_some], typeText?_typeRule hn ht⟩

theorem typeRule_ne_unresolved {name : String} {type : ParamType} (h : m.typeRule name = some type)
    (n : String) (position : Option Position) : type ≠ .unresolved n position := by
  simp only [typeRule, Option.or_eq_some_iff, Option.map_eq_some_iff] at h
  rcases h with ⟨t, -, rfl⟩ | ⟨-, ⟨t, -, rfl⟩ | ⟨-, s, -, rfl⟩⟩ <;> exact ParamType.noConfusion

theorem typed_ne_unresolved {p : Parameter} (h : m.Typable p) (name : String)
    (position : Option Position) : (m.typed p).type ≠ .unresolved name position := by
  intro ht
  cases hp : p.type with
  | unresolved n q =>
      simp only [Typable, hp] at h
      obtain ⟨type, hr⟩ := Option.isSome_iff_exists.1 ((m.isSome_typeRule_iff n).2 h)
      simp only [typed, hp, hr, Option.getD_some] at ht
      exact typeRule_ne_unresolved hr name position ht
  | _ => simp [typed, hp] at ht

/-- In every model that can be reached, type resolution types every parameter by the rule, or all of
them before the first one whose name nothing declares, which is the one that is reported. A name
that has been typed is still written as before, and nothing but types of parameters changes. -/
theorem resolveParameters_types_by_rule {m : Model} (h : Reachable m) :
    ((∀ p ∈ m.parameters, m.Typable p) →
      m.resolveParameters.2 = none ∧
      m.resolveParameters.1.parameters = m.parameters.map m.typed ∧
      (∀ p ∈ m.parameters, ∀ name position, p.type = .unresolved name position →
        m.typeRule name = some (m.typed p).type ∧
        m.resolveParameters.1.typeText? (m.typed p).type = some name) ∧
      ∀ p ∈ m.resolveParameters.1.parameters, ∀ name position, p.type ≠ .unresolved name position) ∧
    (∀ before p after name position, m.parameters = before ++ p :: after →
      (∀ q ∈ before, m.Typable q) → p.type = .unresolved name position → ¬ m.DeclaresType name →
      m.resolveParameters.2 = some (.unresolved s!"type '{name}'" position) ∧
      m.resolveParameters.1.parameters = before.map m.typed ++ p :: after) ∧
    m.resolveParameters.1.untyped = m.untyped := by
  have hs := resolveParameters_parameters h.isNumbered
  have hu := untyped_resolveParameters h.isNumbered
  refine ⟨fun ht => ?_, fun before p after name position hp hb hn hd => ?_, hu⟩
  · rw [mapUntil_eq_map _ _ fun p hp => by rw [typeStep_of_typable (ht p hp)], Prod.mk.injEq] at hs
    obtain ⟨hps, he⟩ := hs
    rw [List.map_congr_left fun p hp => by rw [typeStep_of_typable (ht p hp)]] at hps
    refine ⟨he, hps, fun p hp name position hn => ?_, fun q hq => ?_⟩
    · obtain ⟨type, hr, hty, htext⟩ := typed_eq_of_typable h.isNumbered hn (ht p hp)
      rw [hty]
      exact ⟨hr, (typeText?_congr (congrArg Model.types hu) (congrArg Model.imported hu) type).trans htext⟩
    · rw [hps] at hq
      obtain ⟨p, hp, rfl⟩ := List.mem_map.1 hq
      exact typed_ne_unresolved (ht p hp)
  · have hf := typeStep_of_not_declares hn hd
    rw [hp, mapUntil_of_failure _ (fun q hq => by rw [typeStep_of_typable (hb q hq)]) (by rw [hf]), hf,
      Prod.mk.injEq] at hs
    obtain ⟨hps, he⟩ := hs
    refine ⟨he, ?_⟩
    rw [hps, List.map_congr_left fun q hq => by rw [typeStep_of_typable (hb q hq)]]

theorem resolveParameters_types_pose :
    let m := (Model.empty.addType "pose" none).addFunction "move" [⟨"to", .unresolved "pose" none, none⟩] [] none
    let n := m.addMethod "halt" [⟨"how", .unresolved "manner" none, none⟩] none
    Reachable m ∧ Reachable n ∧
      (m.resolveParameters.2 = none ∧ m.resolveParameters.1.parameters = [⟨"to", .declared ⟨0⟩, none⟩]) ∧
      n.resolveParameters.2 = some (.unresolved "type 'manner'" none) ∧
      n.resolveParameters.1.parameters =
        [⟨"to", .declared ⟨0⟩, none⟩, ⟨"how", .unresolved "manner" none, none⟩] := by
  intro m n
  let t : Files.Tree := ⟨.root, []⟩
  have hempty : Reachable .empty := .empty
  have hm : Reachable m := hempty.applyAll t [.addType "pose" none,
    .addFunction "move" [⟨"to", .unresolved "pose" none, none⟩] [] none] (by decide)
  have hn : Reachable n :=
    .edit hm t (.addMethod "halt" [⟨"how", .unresolved "manner" none, none⟩] none) Expr.unbound_nil trivial
  have hto : ∀ p ∈ [Parameter.mk "to" (.unresolved "pose" none) none], m.Typable p := by
    intro p hp
    obtain rfl := List.mem_singleton.1 hp
    exact .inr (.inr ⟨⟨⟨0⟩, "pose", none⟩, List.mem_cons_self, rfl⟩)
  have hhow : ¬ n.DeclaresType "manner" := by
    rw [← isSome_typeRule_iff]
    decide
  obtain ⟨he, hps, -⟩ := (resolveParameters_types_by_rule hm).1 hto
  obtain ⟨hfe, hfps⟩ := (resolveParameters_types_by_rule hn).2.1 [⟨"to", .unresolved "pose" none, none⟩]
    ⟨"how", .unresolved "manner" none, none⟩ [] "manner" none rfl hto rfl hhow
  exact ⟨hm, hn, ⟨he, hps⟩, hfe, hfps⟩

end Model

end RobotLang
