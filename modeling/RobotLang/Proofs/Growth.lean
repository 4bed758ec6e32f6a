import RobotLang.Proofs.Changes

namespace RobotLang

variable {α : Type} {kind : Kind} {T : Model → ParamType → Prop}

/-- Every entry of a store is at its place in another one, but for a change that `R` allows. -/
def Keeps (R : α → α → Prop) (as bs : List α) : Prop :=
  ∀ (i : Nat) (a : α), as[i]? = some a → ∃ b, bs[i]? = some b ∧ R a b

namespace Keeps

variable {R : α → α → Prop} {as bs cs : List α}

theorem refl (hR : ∀ a, R a a) (as : List α) : Keeps R as as := fun _ a h => ⟨a, h, hR a⟩

theorem trans (hR : ∀ {a b c}, R a b → R b c → R a c) (h : Keeps R as bs) (h' : Keeps R bs cs) :
    Keeps R as cs := by
  intro i a ha
  obtain ⟨b, hb, hab⟩ := h i a ha
  obtain ⟨c, hc, hbc⟩ := h' i b hb
  exact ⟨c, hc, hR hab hbc⟩

theorem append (hR : ∀ a, R a a) (as bs : List α) : Keeps R as (as ++ bs) := by
  intro i a ha
  exact ⟨a, by rw [List.getElem?_append_left (List.getElem?_eq_some_iff.1 ha).1, ha], hR a⟩

theorem set (hR : ∀ a, R a a) {i : Nat} {a b : α} (ha : as[i]? = some a) (hab : R a b) :
    Keeps R as (as.set i b) := by
  intro j c hc
  by_cases hj : i = j
  · subst hj
    rw [ha, Option.some.injEq] at hc
    subst hc
    exact ⟨b, by simp [(List.getElem?_eq_some_iff.1 ha).1], hab⟩
  · exact ⟨c, by simp [hj, hc], hR c⟩

theorem mapUntil {ε : Type} (hR : ∀ a, R a a) (f : α → α × Option ε) (hf : ∀ a, R a (f a).1)
    (as : List α) : Keeps R as (mapUntil f as).1 := by
  induction as with
  | nil => exact refl hR []
  | cons a as ih =>
      intro i b hb
      have ha := hf a
      rw [RobotLang.mapUntil]
      rcases h : f a with ⟨c, _ | e⟩ <;> rw [h] at ha
      · cases i with
        | zero => exact ⟨c, rfl, by simpa using (Option.some.inj hb) ▸ ha⟩
        | succ i => exact ih i b hb
      · cases i with
        | zero => exact ⟨c, rfl, by simpa using (Option.some.inj hb) ▸ ha⟩
        | succ i => exact ⟨b, hb, hR b⟩

theorem exists_of_mem {a : α} (h : Keeps R as bs) (ha : a ∈ as) : ∃ b ∈ bs, R a b := by
  obtain ⟨i, hi⟩ := List.mem_iff_getElem?.1 ha
  obtain ⟨b, hb, hab⟩ := h i a hi
  exact ⟨b, List.mem_of_getElem? hb, hab⟩

theorem find? {id : EntityId kind} {a : α} (h : Keeps R as bs) (ha : id.find? as = some a) :
    ∃ b, id.find? bs = some b ∧ R a b := by
  simp only [EntityId.find?] at ha ⊢
  split at ha
  next hn =>
    obtain ⟨b, hb, hab⟩ := h _ a ha
    exact ⟨b, by rw [if_pos hn, hb], hab⟩
  · cases ha

end Keeps

theorem find?_of_isPrefix {as bs : List α} (h : as <+: bs) {id : EntityId kind} {a : α}
    (ha : id.find? as = some a) : id.find? bs = some a := by
  obtain ⟨cs, rfl⟩ := h
  obtain ⟨b, hb, rfl⟩ := (Keeps.append (R := Eq) (fun _ => rfl) as cs).find? ha
  exact hb

theorem getElem?_of_find? {id : EntityId kind} {store : List α} {a : α}
    (h : id.find? store = some a) : store[id.index.toNat]? = some a := by
  simp only [EntityId.find?] at h
  split at h
  · exact h
  · cases h

def Numbered (entries : List (Entity kind)) : Prop :=
  ∀ (i : Nat) (e : Entity kind), entries[i]? = some e → e.id = ⟨i⟩

namespace Numbered

theorem append {entries : List (Entity kind)} (h : Numbered entries) (name : String)
    (position : Option Position) : Numbered (entries ++ [⟨.next entries, name, position⟩]) := by
  intro i e he
  rcases Nat.lt_trichotomy i entries.length with hi | rfl | hi
  · rw [List.getElem?_append_left hi] at he
    exact h i e he
  · simp only [List.getElem?_append_right (Nat.le_refl _), Nat.sub_self, List.getElem?_cons_zero,
      Option.some.injEq] at he
    exact he ▸ rfl
  · rw [List.getElem?_eq_none (by simp; omega)] at he
    cases he

theorem find?_of_mem {store : List α} {entity : α → Entity kind} (h : Numbered (store.map entity))
    {a : α} (ha : a ∈ store) : (entity a).id.find? store = some a := by
  obtain ⟨i, hi⟩ := List.mem_iff_getElem?.1 ha
  rw [h i (entity a) (by simp [hi]), EntityId.find?_ofNat, hi]

theorem find?_id {entries : List (Entity kind)} (h : Numbered entries) {e : Entity kind}
    (he : e ∈ entries) : e.id.find? entries = some e := by
  have hi : Numbered (entries.map fun x => x) := by rwa [List.map_id']
  exact hi.find?_of_mem he

end Numbered

def Parameter.label (p : Parameter) : String × Option Position := (p.name, p.position)

structure Function.Grows (f g : Function) : Prop where
  entity : g.toEntity = f.toEntity
  shape : Expr.shapes g.body = Expr.shapes f.body
  labels : f.parameters.map Parameter.label <+: g.parameters.map Parameter.label

structure Method.Grows (f g : Method) : Prop where
  entity : g.toEntity = f.toEntity
  labels : f.parameters.map Parameter.label <+: g.parameters.map Parameter.label

namespace Function.Grows

theorem refl (f : Function) : Function.Grows f f := ⟨rfl, rfl, List.prefix_rfl⟩

theorem trans {f g h : Function} (hfg : Function.Grows f g) (hgh : Function.Grows g h) : Function.Grows f h :=
  ⟨hgh.entity.trans hfg.entity, hgh.shape.trans hfg.shape, hfg.labels.trans hgh.labels⟩

end Function.Grows

namespace Method.Grows

theorem refl (f : Method) : Method.Grows f f := ⟨rfl, List.prefix_rfl⟩

theorem trans {f g h : Method} (hfg : Method.Grows f g) (hgh : Method.Grows g h) : Method.Grows f h :=
  ⟨hgh.entity.trans hfg.entity, hfg.labels.trans hgh.labels⟩

end Method.Grows

theorem map_label_retyped (ps : List Parameter) (i : Nat) (type : ParamType) :
    (Model.retyped ps i type).map Parameter.label = ps.map Parameter.label := by
  apply List.ext_getElem?
  intro j
  simp only [Model.retyped, List.getElem?_map, List.getElem?_modify]
  by_cases h : i = j <;> cases ps[j]? <;> simp [h, Parameter.label]

theorem Function.Grows.retyped (f : Function) (i : Nat) (type : ParamType) :
    Function.Grows f { f with parameters := Model.retyped f.parameters i type } :=
  ⟨rfl, rfl, by simp [map_label_retyped]⟩

theorem Method.Grows.retyped (f : Method) (i : Nat) (type : ParamType) :
    Method.Grows f { f with parameters := Model.retyped f.parameters i type } :=
  ⟨rfl, by simp [map_label_retyped]⟩

theorem Function.Grows.extended (f : Function) (p : Parameter) :
    Function.Grows f { f with parameters := f.parameters ++ [p] } :=
  ⟨rfl, rfl, by simp⟩

theorem Method.Grows.extended (f : Method) (p : Parameter) :
    Method.Grows f { f with parameters := f.parameters ++ [p] } :=
  ⟨rfl, by simp⟩

theorem Function.Grows.bound (scope : Scope) (f : Function) :
    Function.Grows f (Model.bindFunction scope f).1 :=
  ⟨rfl, Expr.shapes_bindAll scope f.parameters f.body, List.prefix_rfl⟩

/-- Every store of the model gives its entries their places as identifiers. -/
structure Model.IsNumbered (m : Model) : Prop where
  robots : Numbered m.robots
  types : Numbered m.types
  functions : Numbered (m.functions.map (·.toEntity))
  methods : Numbered (m.methods.map (·.toEntity))
  importedTypes : Numbered m.imported.types
  skillsets : Numbered (m.imported.skillsets.map (·.toEntity))

/-- What is in the first model is in the second one, at the same place and of the same name. -/
structure Model.Grows (m n : Model) : Prop where
  includes : m.includes <+: n.includes
  robots : m.robots <+: n.robots
  types : m.types <+: n.types
  functions : Keeps Function.Grows m.functions n.functions
  methods : Keeps Method.Grows m.methods n.methods
  rosCalls : ∀ c ∈ m.rosCalls, c ∈ n.rosCalls
  importedTypes : m.imported.types <+: n.imported.types
  skillsets : m.imported.skillsets <+: n.imported.skillsets

namespace Model.Grows

theorem refl (m : Model) : m.Grows m where
  includes := List.prefix_rfl
  robots := List.prefix_rfl
  types := List.prefix_rfl
  functions := .refl .refl _
  methods := .refl .refl _
  rosCalls := fun _ h => h
  importedTypes := List.prefix_rfl
  skillsets := List.prefix_rfl

theorem trans {m n k : Model} (h : m.Grows n) (h' : n.Grows k) : m.Grows k where
  includes := h.includes.trans h'.includes
  robots := h.robots.trans h'.robots
  types := h.types.trans h'.types
  functions := h.functions.trans .trans h'.functions
  methods := h.methods.trans .trans h'.methods
  rosCalls := fun c hc => h'.rosCalls c (h.rosCalls c hc)
  importedTypes := h.importedTypes.trans h'.importedTypes
  skillsets := h.skillsets.trans h'.skillsets

end Model.Grows

theorem map_set_of_eq {β : Type} {as : List α} {i : Nat} {a b : α} (g : α → β) (ha : as[i]? = some a)
    (hg : g b = g a) : (as.set i b).map g = as.map g := by
  obtain ⟨hi, ha⟩ := List.getElem?_eq_some_iff.1 ha
  rw [List.map_set, hg, ← ha, ← List.getElem_map g (h := by simpa using hi), List.set_getElem_self]

theorem Numbered.getElem?_id {store : List α} {entity : α → Entity kind}
    (h : Numbered (store.map entity)) {id : EntityId kind} {a : α} (ha : id.find? store = some a) :
    store[(entity a).id.index.toNat]? = some a := by
  have hi := getElem?_of_find? ha
  rw [h id.index.toNat (entity a) (by simp [hi])]
  exact hi

theorem Numbered.set {store : List α} {entity : α → Entity kind} (h : Numbered (store.map entity))
    {i : Nat} {a b : α} (ha : store[i]? = some a) (hb : entity b = entity a) :
    Numbered ((store.set i b).map entity) := by
  rw [map_set_of_eq entity ha hb]
  exact h

theorem Model.IsNumbered.addFunction {m : Model} (hm : m.IsNumbered) (name : String) (ps : List Parameter)
    (body : List Expr) (position : Option Position) : (m.addFunction name ps body position).IsNumbered := by
  refine { hm with functions := ?_ }
  simpa [Model.addFunction, EntityId.next] using hm.functions.append name position

theorem Model.Grows.addFunction (m : Model) (name : String) (ps : List Parameter) (body : List Expr)
    (position : Option Position) : m.Grows (m.addFunction name ps body position) :=
  { Model.Grows.refl m with functions := .append .refl _ _ }

namespace Change

variable {m n : Model}

theorem isNumbered (h : Change T m n) (hm : m.IsNumbered) : n.IsNumbered := by
  cases h with
  | addInclude | addRosCall => exact { hm with }
  | addRobot name position => exact { hm with robots := hm.robots.append name position }
  | addType name position => exact { hm with types := hm.types.append name position }
  | addFunction name ps body position => exact hm.addFunction name ps body position
  | addMethod name ps position =>
      refine { hm with methods := ?_ }
      simpa [Model.addMethod, EntityId.next] using hm.methods.append name position
  | addImportedType name position =>
      exact { hm with importedTypes := hm.importedTypes.append name position }
  | addSkillset name skills position =>
      refine { hm with skillsets := ?_ }
      simpa [Imported.addSkillset, EntityId.next] using hm.skillsets.append name position
  | retypeFunction hf => exact { hm with functions := hm.functions.set (getElem?_of_find? hf) rfl }
  | retypeMethod hf => exact { hm with methods := hm.methods.set (getElem?_of_find? hf) rfl }
  | extendFunction hf =>
      exact { hm with functions := hm.functions.set (hm.functions.getElem?_id hf) rfl }
  | extendMethod hf => exact { hm with methods := hm.methods.set (hm.methods.getElem?_id hf) rfl }
  | bind =>
      refine { hm with functions := ?_ }
      rw [map_mapUntil _ (fun f : Function => f.toEntity) fun _ => rfl]
      exact hm.functions

theorem grows (h : Change T m n) (hm : m.IsNumbered) : m.Grows n := by
  have hr := Model.Grows.refl m
  cases h with
  | addInclude => exact { hr with includes := List.prefix_append _ _ }
  | addRobot => exact { hr with robots := List.prefix_append _ _ }
  | addType => exact { hr with types := List.prefix_append _ _ }
  | addFunction name ps body position => exact .addFunction m name ps body position
  | addMethod => exact { hr with methods := .append .refl _ _ }
  | addImportedType => exact { hr with importedTypes := List.prefix_append _ _ }
  | addSkillset => exact { hr with skillsets := List.prefix_append _ _ }
  | addRosCall => exact { hr with rosCalls := fun c hc => CallRegistry.mem_insert.2 (.inr hc) }
  | retypeFunction hf i type =>
      exact { hr with functions := .set .refl (getElem?_of_find? hf) (.retyped _ i type) }
  | retypeMethod hf i type =>
      exact { hr with methods := .set .refl (getElem?_of_find? hf) (.retyped _ i type) }
  | extendFunction hf p =>
      exact { hr with functions := .set .refl (hm.functions.getElem?_id hf) (.extended _ p) }
  | extendMethod hf p =>
      exact { hr with methods := .set .refl (hm.methods.getElem?_id hf) (.extended _ p) }
  | bind => exact { hr with functions := .mapUntil .refl _ (.bound _) m.functions }

end Change

end RobotLang
