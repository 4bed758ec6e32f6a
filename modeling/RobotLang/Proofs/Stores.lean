import RobotLang.Proofs.Reachable

namespace RobotLang

open Files Relation

variable {α : Type} {kind : Kind}

namespace EntityId

def IsOutside (id : EntityId kind) (store : List α) : Prop := id.index < 0 ∨ store.length ≤ id.index

theorem find?_of_isOutside {id : EntityId kind} {store : List α} (h : id.IsOutside store) :
    id.find? store = none := by
  rcases h with h | h
  · exact find?_of_neg h store
  · rw [find?]
    split
    · exact List.getElem?_eq_none (by omega)
    · rfl

theorem find?_next (store : List α) (a : α) :
    (next store : EntityId kind).find? (store ++ [a]) = some a := by
  rw [next, find?_ofNat, List.getElem?_concat_length]

end EntityId

namespace Model

variable {m : Model}

theorem lookup_robot {id : EntityId .robot} {r : Robot} :
    m.lookup (.id .robot id) = .ok (some (.robot r)) ↔ id.find? m.robots = some r := by
  simp only [lookup, get?, Except.ok.injEq, Option.map_eq_some_iff, Declared.robot.injEq, exists_eq_right]

theorem lookup_type {id : EntityId .type} {t : DeclaredType} :
    m.lookup (.id .type id) = .ok (some (.type t)) ↔ id.find? m.types = some t := by
  simp only [lookup, get?, Except.ok.injEq, Option.map_eq_some_iff, Declared.type.injEq, exists_eq_right]

theorem lookup_function {id : EntityId .function} {f : Function} :
    m.lookup (.id .function id) = .ok (some (.function f)) ↔ id.find? m.functions = some f := by
  simp only [lookup, get?, Except.ok.injEq, Option.map_eq_some_iff, Declared.function.injEq, exists_eq_right]

theorem lookup_method {id : EntityId .method} {f : Method} :
    m.lookup (.id .method id) = .ok (some (.method f)) ↔ id.find? m.methods = some f := by
  simp only [lookup, get?, Except.ok.injEq, Option.map_eq_some_iff, Declared.method.injEq, exists_eq_right]

end Model

structure Model.LeadsNowhereElse (m : Model) : Prop where
  robots : ∀ id : EntityId .robot, id.IsOutside m.robots → m.lookup (.id .robot id) = .ok none
  types : ∀ id : EntityId .type, id.IsOutside m.types → m.lookup (.id .type id) = .ok none
  functions : ∀ id : EntityId .function, id.IsOutside m.functions → m.lookup (.id .function id) = .ok none
  methods : ∀ id : EntityId .method, id.IsOutside m.methods → m.lookup (.id .method id) = .ok none
  importedTypes : ∀ id : EntityId .importedType, id.IsOutside m.imported.types →
    id.find? m.imported.types = none
  skillsets : ∀ id : EntityId .skillset, id.IsOutside m.imported.skillsets →
    id.find? m.imported.skillsets = none

theorem Model.leadsNowhereElse (m : Model) : m.LeadsNowhereElse where
  robots := fun id h => by simp only [lookup, get?, EntityId.find?_of_isOutside h, Option.map_none]
  types := fun id h => by simp only [lookup, get?, EntityId.find?_of_isOutside h, Option.map_none]
  functions := fun id h => by simp only [lookup, get?, EntityId.find?_of_isOutside h, Option.map_none]
  methods := fun id h => by simp only [lookup, get?, EntityId.find?_of_isOutside h, Option.map_none]
  importedTypes := fun _ h => EntityId.find?_of_isOutside h
  skillsets := fun _ h => EntityId.find?_of_isOutside h

namespace Edit

/-- What an edit has added is found under a key, in a model. Functions and methods may have got more
parameters since, and other types of their parameters, and bodies other targets. -/
def IsFoundIn (m : Model) (key : Key) : Edit → Prop
  | addRobot name position =>
    ∃ id, key = .id .robot id ∧ m.lookup key = .ok (some (.robot ⟨id, name, position⟩))
  | addType name position =>
    ∃ id, key = .id .type id ∧ m.lookup key = .ok (some (.type ⟨id, name, position⟩))
  | addFunction name ps body position =>
    ∃ id f, key = .id .function id ∧ m.lookup key = .ok (some (.function f)) ∧
      f.toEntity = ⟨id, name, position⟩ ∧ Expr.shapes f.body = Expr.shapes body ∧
      ps.map Parameter.label <+: f.parameters.map Parameter.label
  | addMethod name ps position =>
    ∃ id f, key = .id .method id ∧ m.lookup key = .ok (some (.method f)) ∧
      f.toEntity = ⟨id, name, position⟩ ∧ ps.map Parameter.label <+: f.parameters.map Parameter.label
  | addImportedType name position =>
    ∃ id, key = .id .importedType id ∧ id.find? m.imported.types = some ⟨id, name, position⟩
  | addSkillset name skills position =>
    ∃ id, key = .id .skillset id ∧ id.find? m.imported.skillsets = some ⟨⟨id, name, position⟩, skills⟩
  | _ => False

def after (m : Model) (steps : List (Tree × Edit)) : Model :=
  steps.foldl (fun m x => (x.2.apply x.1 m).1) m

theorem isFoundIn_apply (t : Tree) (m : Model) (e : Edit) {key : Key} (h : e.newKey m = some key) :
    e.IsFoundIn (e.apply t m).1 key := by
  cases e with
  | addRobot name position =>
      obtain rfl := Option.some.inj h
      refine ⟨_, rfl, ?_⟩
      exact Model.lookup_robot.2 (EntityId.find?_next _ _)
  | addType name position =>
      obtain rfl := Option.some.inj h
      refine ⟨_, rfl, ?_⟩
      exact Model.lookup_type.2 (EntityId.find?_next _ _)
  | addFunction name ps body position =>
      obtain rfl := Option.some.inj h
      refine ⟨_, ⟨⟨.next m.functions, name, position⟩, ps, body⟩, rfl, ?_, rfl, rfl,
        List.prefix_rfl⟩
      exact Model.lookup_function.2 (EntityId.find?_next _ _)
  | addMethod name ps position =>
      obtain rfl := Option.some.inj h
      refine ⟨_, ⟨⟨.next m.methods, name, position⟩, ps⟩, rfl, ?_, rfl, List.prefix_rfl⟩
      exact Model.lookup_method.2 (EntityId.find?_next _ _)
  | addImportedType name position =>
      obtain rfl := Option.some.inj h
      exact ⟨_, rfl, EntityId.find?_next _ _⟩
  | addSkillset name skills position =>
      obtain rfl := Option.some.inj h
      exact ⟨_, rfl, EntityId.find?_next _ _⟩
  | _ => cases h

theorem IsFoundIn.grows {m n : Model} {key : Key} {e : Edit} (h : e.IsFoundIn m key) (hg : m.Grows n) :
    e.IsFoundIn n key := by
  cases e with
  | addRobot name position =>
      obtain ⟨id, rfl, h⟩ := h
      exact ⟨id, rfl, Model.lookup_robot.2 (find?_of_isPrefix hg.robots (Model.lookup_robot.1 h))⟩
  | addType name position =>
      obtain ⟨id, rfl, h⟩ := h
      exact ⟨id, rfl, Model.lookup_type.2 (find?_of_isPrefix hg.types (Model.lookup_type.1 h))⟩
  | addFunction name ps body position =>
      obtain ⟨id, f, rfl, h, he, hb, hl⟩ := h
      obtain ⟨g, hf, hfg⟩ := hg.functions.find? (Model.lookup_function.1 h)
      exact ⟨id, g, rfl, Model.lookup_function.2 hf, hfg.entity.trans he, hfg.shape.trans hb,
        hl.trans hfg.labels⟩
  | addMethod name ps position =>
      obtain ⟨id, f, rfl, h, he, hl⟩ := h
      obtain ⟨g, hf, hfg⟩ := hg.methods.find? (Model.lookup_method.1 h)
      exact ⟨id, g, rfl, Model.lookup_method.2 hf, hfg.entity.trans he, hl.trans hfg.labels⟩
  | addImportedType name position =>
      obtain ⟨id, rfl, h⟩ := h
      exact ⟨id, rfl, find?_of_isPrefix hg.importedTypes h⟩
  | addSkillset name skills position =>
      obtain ⟨id, rfl, h⟩ := h
      exact ⟨id, rfl, find?_of_isPrefix hg.skillsets h⟩
  | _ => exact h.elim

theorem grows_of_changes {T : Model → ParamType → Prop} {m n : Model} (hm : m.IsNumbered)
    (h : Changes T m n) : n.IsNumbered ∧ m.Grows n :=
  h.keeps (P := fun k => k.IsNumbered ∧ m.Grows k)
    (fun hc hk => ⟨hc.isNumbered hk.1, hk.2.trans (hc.grows hk.1)⟩) ⟨hm, .refl m⟩

/-- An edit, whether or not it fails, leaves every entry where it is. -/
theorem grows_apply (t : Tree) {m : Model} (hm : m.IsNumbered) (e : Edit) :
    (e.apply t m).1.IsNumbered ∧ m.Grows (e.apply t m).1 := by
  have hchange : e.body = [] → (e.apply t m).1.IsNumbered ∧ m.Grows (e.apply t m).1 := fun hb =>
    grows_of_changes (T := fun _ _ => True) hm
      (changes_apply (fun _ _ _ _ => trivial) t m e (hb ▸ Expr.unbound_nil) fun _ _ => trivial)
  cases e with
  | addFunction name ps body position =>
      exact ⟨hm.addFunction name ps body position, .addFunction m name ps body position⟩
  | _ => exact hchange rfl

theorem grows_after {m : Model} (hm : m.IsNumbered) (steps : List (Tree × Edit)) :
    (after m steps).IsNumbered ∧ m.Grows (after m steps) := by
  induction steps generalizing m with
  | nil => exact ⟨hm, .refl m⟩
  | cons x steps ih =>
      obtain ⟨hn, hg⟩ := grows_apply x.1 hm x.2
      obtain ⟨hn', hg'⟩ := ih hn
      exact ⟨hn', hg.trans hg'⟩

/-- Whatever edits have led to a model, failing ones included, every entry has its place in its store as
identifier, and an identifier of no entry leads nowhere. Whatever edits follow, every entry stays where it
is and keeps its name and position, and what an edit adds is found under the identifier that it got. -/
theorem identifiers_stay (before : List (Tree × Edit)) :
    let m := after .empty before
    m.IsNumbered ∧ m.LeadsNowhereElse ∧ (∀ later, m.Grows (after m later)) ∧
      ∀ (t : Tree) (e : Edit) (key : Key), e.newKey m = some key →
        ∀ later, e.IsFoundIn (after (e.apply t m).1 later) key := by
  intro m
  have hm : m.IsNumbered := (grows_after isNumbered_empty before).1
  refine ⟨hm, m.leadsNowhereElse, fun later => (grows_after hm later).2, fun t e key hkey later => ?_⟩
  have he : (e.apply t m).1.IsNumbered := (grows_apply t hm e).1
  exact (isFoundIn_apply t m e hkey).grows (grows_after he later).2

theorem identifiers_stay_go :
    let t : Tree := ⟨.root, []⟩
    let go : Edit := .addFunction "go" [] [.reference "speed" none none] none
    let m := after .empty [(t, .addRobot "arm" none), (t, .addFunction "halt" [] [] none)]
    let later : List (Tree × Edit) :=
      [(t, .run Stage.resolution), (t, .appendParameter (.id .function ⟨1⟩) ⟨"speed", .boolean, none⟩),
        (t, go), (t, .run Stage.resolution), (t, .loadSkillset "skillset")]
    go.newKey m = some (.id .function ⟨1⟩) ∧
      go.IsFoundIn (after (go.apply t m).1 later) (.id .function ⟨1⟩) := by
  intro t go m later
  have hkey : go.newKey m = some (.id .function ⟨1⟩) := rfl
  obtain ⟨-, -, -, hfound⟩ :=
    identifiers_stay [(t, .addRobot "arm" none), (t, .addFunction "halt" [] [] none)]
  exact ⟨hkey, hfound t go _ hkey later⟩

end Edit

end RobotLang
