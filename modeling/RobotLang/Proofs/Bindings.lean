import RobotLang.Proofs.BindingRule
import RobotLang.Proofs.Reachable
import RobotLang.Proofs.TypeRule

namespace RobotLang

namespace Model

variable (m : Model)

/-- A target exists and has a name, seen from a function with the given parameters: it is the first
parameter of the name, or an entry of the name. -/
def Bears (ps : List Parameter) (name : String) : Target → Prop
  | .parameter i =>
    ∃ k : Nat, i = k ∧ (∃ p, ps[k]? = some p ∧ p.name = name) ∧ ∀ j < k, ∀ p, ps[j]? = some p → p.name ≠ name
  | .function id => ∃ f, id.find? m.functions = some f ∧ f.name = name
  | .method id => ∃ f, id.find? m.methods = some f ∧ f.name = name
  | .type (.declared id) => ∃ t, id.find? m.types = some t ∧ t.name = name
  | .type (.imported id) => ∃ t, id.find? m.imported.types = some t ∧ t.name = name
  | .type (.skillset id) => ∃ s, id.find? m.imported.skillsets = some s ∧ s.name = name
  | .type _ => False

def HasType : ParamType → Prop
  | .declared id => ∃ t, id.find? m.types = some t
  | .imported id => ∃ t, id.find? m.imported.types = some t
  | .skillset id => ∃ s, id.find? m.imported.skillsets = some s
  | .undefined | .boolean | .unresolved .. | .abstract => True

end Model

def Target.IsCallable : Target → Prop
  | .function _ | .method _ => True
  | .parameter _ | .type _ => False

/-- An occurrence in a function with the given parameters is bound correctly, if it is bound. -/
def Occurrence.Correct (m : Model) (ps : List Parameter) (o : Occurrence) : Prop :=
  ∀ t, o.target = some t → m.Bears ps o.name t ∧ (o.role = .callee → t.IsCallable)

def Function.Correct (m : Model) (f : Function) : Prop :=
  ∀ o ∈ Expr.occurrencesOf f.body, o.Correct m f.parameters

section Growing

variable {m n : Model} {ps qs : List Parameter}

theorem name_of_labels (h : ps.map Parameter.label <+: qs.map Parameter.label) {j : Nat} {p : Parameter}
    (hp : ps[j]? = some p) : ∃ q, qs[j]? = some q ∧ q.name = p.name := by
  have hl : (qs.map Parameter.label)[j]? = some p.label := by
    obtain ⟨rest, hr⟩ := h
    rw [← hr, List.getElem?_append_left (by simpa using (List.getElem?_eq_some_iff.1 hp).1),
      List.getElem?_map, hp, Option.map_some]
  rw [List.getElem?_map, Option.map_eq_some_iff] at hl
  obtain ⟨q, hq, hqp⟩ := hl
  exact ⟨q, hq, congrArg Prod.fst hqp⟩

theorem Model.Bears.grows (hg : m.Grows n) (hl : ps.map Parameter.label <+: qs.map Parameter.label)
    {name : String} {t : Target} (h : m.Bears ps name t) : n.Bears qs name t := by
  rcases t with i | id | id | _ | _ | _ | id | id | id | _
  case parameter =>
    obtain ⟨k, hi, ⟨p, hp, hn⟩, hb⟩ := h
    obtain ⟨q, hq, hqp⟩ := name_of_labels hl hp
    refine ⟨k, hi, ⟨q, hq, hqp.trans hn⟩, fun j hj q' hq' hn' => ?_⟩
    -- Parameters are only appended, so an earlier one of the name would have been there before.
    have hlt : j < ps.length := Nat.lt_trans hj (List.getElem?_eq_some_iff.1 hp).1
    obtain ⟨q'', hq'', he⟩ := name_of_labels hl (List.getElem?_eq_getElem hlt)
    obtain rfl := Option.some.inj (hq'.symm.trans hq'')
    exact hb j hj _ (List.getElem?_eq_getElem hlt) (he.symm.trans hn')
  case function =>
    obtain ⟨f, hf, hn⟩ := h
    obtain ⟨g, hg, hfg⟩ := hg.functions.find? hf
    exact ⟨g, hg, (congrArg Entity.name hfg.entity).trans hn⟩
  case method =>
    obtain ⟨f, hf, hn⟩ := h
    obtain ⟨g, hg, hfg⟩ := hg.methods.find? hf
    exact ⟨g, hg, (congrArg Entity.name hfg.entity).trans hn⟩
  case type.skillset =>
    obtain ⟨s, hs, hn⟩ := h
    exact ⟨s, find?_of_isPrefix hg.skillsets hs, hn⟩
  case type.imported =>
    obtain ⟨t, ht, hn⟩ := h
    exact ⟨t, find?_of_isPrefix hg.importedTypes ht, hn⟩
  case type.declared =>
    obtain ⟨t, ht, hn⟩ := h
    exact ⟨t, find?_of_isPrefix hg.types ht, hn⟩
  all_goals exact h.elim

theorem Model.HasType.grows (hg : m.Grows n) {type : ParamType} (h : m.HasType type) : n.HasType type := by
  cases type with
  | declared id =>
      obtain ⟨t, ht⟩ := h
      exact ⟨t, find?_of_isPrefix hg.types ht⟩
  | imported id =>
      obtain ⟨t, ht⟩ := h
      exact ⟨t, find?_of_isPrefix hg.importedTypes ht⟩
  | skillset id =>
      obtain ⟨s, hs⟩ := h
      exact ⟨s, find?_of_isPrefix hg.skillsets hs⟩
  | undefined | boolean | unresolved name position | abstract => trivial

theorem Occurrence.Correct.grows (hg : m.Grows n)
    (hl : ps.map Parameter.label <+: qs.map Parameter.label) {o : Occurrence} (h : o.Correct m ps) :
    o.Correct n qs :=
  fun t ht => ⟨(h t ht).1.grows hg hl, (h t ht).2⟩

theorem Function.Correct.grows {f g : Function} (h : f.Correct m) (hg : m.Grows n)
    (hb : g.body = f.body)
    (hl : f.parameters.map Parameter.label <+: g.parameters.map Parameter.label) : g.Correct n := by
  intro o ho
  rw [hb] at ho
  exact (h o ho).grows hg hl

theorem Function.correct_of_unbound {f : Function} (h : Expr.Unbound f.body) : f.Correct m := by
  intro o ho t ht
  rw [h o ho] at ht
  cases ht

end Growing

namespace Model

variable {m : Model}

theorem bears_of_typeRule (hm : m.IsNumbered) (ps : List Parameter) {name : String} {type : ParamType}
    (h : m.typeRule name = some type) : m.Bears ps name (.type type) := by
  simp only [typeRule, Option.or_eq_some_iff, Option.map_eq_some_iff] at h
  rcases h with ⟨t, ht, rfl⟩ | ⟨-, ⟨t, ht, rfl⟩ | ⟨-, s, hs, rfl⟩⟩
  · obtain ⟨hmem, hn⟩ := mem_of_lastNamed ht
    exact ⟨t, hm.types.find?_id hmem, hn⟩
  · obtain ⟨hmem, hn⟩ := mem_of_lastNamed ht
    exact ⟨t, hm.importedTypes.find?_id hmem, hn⟩
  · obtain ⟨hmem, hn⟩ := mem_of_lastNamed hs
    obtain ⟨s, hmem', rfl⟩ := List.mem_map.1 hmem
    exact ⟨s, hm.skillsets.find?_of_mem hmem', hn⟩

theorem hasType_of_typeRule (hm : m.IsNumbered) {name : String} {type : ParamType}
    (h : m.typeRule name = some type) : m.HasType type := by
  have hb := bears_of_typeRule hm [] h
  cases type with
  | declared id | imported id | skillset id =>
      obtain ⟨t, ht, -⟩ := hb
      exact ⟨t, ht⟩
  | undefined | boolean | unresolved name position | abstract => trivial

theorem bears_of_lastFunction (hm : m.IsNumbered) (ps : List Parameter) {name : String}
    {e : Entity .function} (h : lastNamed name (m.functions.map (·.toEntity)) = some e) :
    m.Bears ps name (.function e.id) := by
  obtain ⟨hmem, hn⟩ := mem_of_lastNamed h
  obtain ⟨f, hf, rfl⟩ := List.mem_map.1 hmem
  exact ⟨f, hm.functions.find?_of_mem hf, hn⟩

theorem bears_of_lastMethod (hm : m.IsNumbered) (ps : List Parameter) {name : String}
    {e : Entity .method} (h : lastNamed name (m.methods.map (·.toEntity)) = some e) :
    m.Bears ps name (.method e.id) := by
  obtain ⟨hmem, hn⟩ := mem_of_lastNamed h
  obtain ⟨f, hf, rfl⟩ := List.mem_map.1 hmem
  exact ⟨f, hm.methods.find?_of_mem hf, hn⟩

theorem bears_of_findIdx? {ps : List Parameter} {name : String} {k : Nat}
    (h : ps.findIdx? (fun p => p.name = name) = some k) : m.Bears ps name (.parameter k) := by
  obtain ⟨hk, hn, hb⟩ := List.findIdx?_eq_some_iff_getElem.1 h
  refine ⟨k, rfl, ⟨ps[k], List.getElem?_eq_getElem hk, by simpa using hn⟩, fun j hj p hp => ?_⟩
  obtain ⟨hj', rfl⟩ := List.getElem?_eq_some_iff.1 hp
  simpa using hb j hj

theorem correct_of_bindingRule (hm : m.IsNumbered) (ps : List Parameter) (o : Occurrence) :
    Occurrence.Correct m ps { o with target := m.bindingRule ⟨ps, o⟩ } := by
  intro t ht
  rcases o with ⟨_ | _, name, target, position⟩ <;>
    simp only [bindingRule, valueRule, calleeRule, Option.or_eq_some_iff, Option.map_eq_some_iff] at ht
  · refine ⟨?_, fun hr => Role.noConfusion hr⟩
    rcases ht with ⟨k, hk, rfl⟩ | ⟨-, ⟨f, hf, rfl⟩ | ⟨-, type, hr, rfl⟩⟩
    · exact bears_of_findIdx? hk
    · exact bears_of_lastFunction hm ps hf
    · exact bears_of_typeRule hm ps hr
  · rcases ht with ⟨f, hf, rfl⟩ | ⟨-, f, hf, rfl⟩
    · exact ⟨bears_of_lastFunction hm ps hf, fun _ => trivial⟩
    · exact ⟨bears_of_lastMethod hm ps hf, fun _ => trivial⟩

theorem correct_bind (hm : m.IsNumbered) (ps : List Parameter) {o : Occurrence} (h : o.Correct m ps) :
    (o.bind (Scope.ofModel m) ps).1.Correct m ps := by
  have hr := correct_of_bindingRule hm ps o
  rw [← targetIn_ofModel] at hr
  rw [Occurrence.bind]
  cases ht : o.targetIn (Scope.ofModel m) ps with
  | none => exact h
  | some t => simpa only [ht] using hr

end Model

theorem mem_mapUntil {α ε : Type} {f : α → α × Option ε} {as : List α} {b : α}
    (h : b ∈ (mapUntil f as).1) : ∃ a ∈ as, b = (f a).1 ∨ b = a := by
  induction as with
  | nil => cases h
  | cons a as ih =>
      rw [mapUntil] at h
      rcases hf : f a with ⟨c, _ | e⟩ <;> rw [hf] at h <;> rcases List.mem_cons.1 h with rfl | h
      · exact ⟨a, List.mem_cons_self, .inl (by rw [hf])⟩
      · obtain ⟨a', ha, hb⟩ := ih h
        exact ⟨a', List.mem_cons_of_mem _ ha, hb⟩
      · exact ⟨a, List.mem_cons_self, .inl (by rw [hf])⟩
      · exact ⟨b, List.mem_cons_of_mem _ h, .inr rfl⟩

theorem Function.correct_bound {m : Model} (hm : m.IsNumbered) {f : Function} (h : f.Correct m) :
    (Model.bindFunction (Scope.ofModel m) f).1.Correct m := by
  intro o ho
  have hs : Expr.occurrencesOf (Model.bindFunction (Scope.ofModel m) f).1.body = _ :=
    congrArg Prod.fst (Expr.occurrencesOf_bindAll (Scope.ofModel m) f.parameters f.body)
  rw [hs] at ho
  obtain ⟨o', ho', rfl | rfl⟩ := mem_mapUntil ho
  · exact Model.correct_bind hm f.parameters (h o' ho')
  · exact h o ho'

structure Model.IsBoundCorrectly (m : Model) : Prop where
  numbered : m.IsNumbered
  correct : ∀ f ∈ m.functions, f.Correct m

structure Model.IsTypedCorrectly (m : Model) : Prop where
  numbered : m.IsNumbered
  exist : ∀ p ∈ m.parameters, m.HasType p.type

theorem Model.forall_parameters_iff {m : Model} {P : Parameter → Prop} :
    (∀ p ∈ m.parameters, P p) ↔
      (∀ f ∈ m.functions, ∀ p ∈ f.parameters, P p) ∧ ∀ f ∈ m.methods, ∀ p ∈ f.parameters, P p := by
  simp only [parameters, List.forall_mem_append, List.forall_mem_flatMap]

theorem forall_mem_snoc {α : Type} {P : α → Prop} {as : List α} {b : α} (h : ∀ a ∈ as, P a) (hb : P b) :
    ∀ a ∈ as ++ [b], P a :=
  List.forall_mem_append.2 ⟨h, List.forall_mem_singleton.2 hb⟩

theorem forall_mem_set {α : Type} {P : α → Prop} {as : List α} {i : Nat} {b : α} (h : ∀ a ∈ as, P a)
    (hb : P b) : ∀ a ∈ as.set i b, P a := by
  intro a ha
  rcases List.mem_or_eq_of_mem_set ha with ha | rfl
  · exact h a ha
  · exact hb

theorem forall_mem_retyped {P : ParamType → Prop} {ps : List Parameter} (i : Nat) {type : ParamType}
    (ht : P type) (h : ∀ p ∈ ps, P p.type) : ∀ p ∈ Model.retyped ps i type, P p.type := by
  intro p hp
  obtain ⟨j, hj⟩ := List.mem_iff_getElem?.1 hp
  rw [Model.retyped, List.getElem?_modify] at hj
  split at hj
  · obtain ⟨q, -, rfl⟩ := Option.map_eq_some_iff.1 hj
    exact ht
  · exact h p (List.mem_of_getElem? (by simpa using hj))

namespace Change

variable {m n : Model} {T : Model → ParamType → Prop}

theorem isBoundCorrectly (h : Change T m n) (hm : m.IsBoundCorrectly) : n.IsBoundCorrectly := by
  have hg := h.grows hm.numbered
  refine ⟨h.isNumbered hm.numbered, ?_⟩
  have hkeep : ∀ f ∈ m.functions, f.Correct n := fun f hf => (hm.correct f hf).grows hg rfl List.prefix_rfl
  cases h with
  | addInclude | addRobot | addType | addMethod | addImportedType | addSkillset | addRosCall => exact hkeep
  | retypeMethod | extendMethod => exact hkeep
  | addFunction name ps body position hb => exact forall_mem_snoc hkeep (Function.correct_of_unbound hb)
  | retypeFunction hf i type =>
      have hc := hm.correct _ (List.mem_of_getElem? (getElem?_of_find? hf))
      exact forall_mem_set hkeep (hc.grows hg rfl (Function.Grows.retyped _ i type).labels)
  | extendFunction hf p =>
      have hc := hm.correct _ (List.mem_of_getElem? (getElem?_of_find? hf))
      exact forall_mem_set hkeep (hc.grows hg rfl (Function.Grows.extended _ p).labels)
  | bind =>
      intro g hg'
      obtain ⟨f, hf, rfl | rfl⟩ := mem_mapUntil hg'
      · exact (Function.correct_bound hm.numbered (hm.correct f hf)).grows hg rfl List.prefix_rfl
      · exact hkeep g hf

theorem types {P : ParamType → Prop} (h : Change T m n) (hT : ∀ type, T m type → P type)
    (hm : ∀ p ∈ m.parameters, P p.type) : ∀ p ∈ n.parameters, P p.type := by
  rw [Model.forall_parameters_iff] at hm ⊢
  obtain ⟨hf, hf'⟩ := hm
  cases h with
  | addInclude | addRobot | addType | addImportedType | addSkillset | addRosCall => exact ⟨hf, hf'⟩
  | addFunction name ps body position hb ht => exact ⟨forall_mem_snoc hf fun p hp => hT _ (ht p hp), hf'⟩
  | addMethod name ps position ht => exact ⟨hf, forall_mem_snoc hf' fun p hp => hT _ (ht p hp)⟩
  | retypeFunction hi i type ht =>
      have hps := hf _ (List.mem_of_getElem? (getElem?_of_find? hi))
      exact ⟨forall_mem_set hf (forall_mem_retyped i (hT _ ht) hps), hf'⟩
  | retypeMethod hi i type ht =>
      have hps := hf' _ (List.mem_of_getElem? (getElem?_of_find? hi))
      exact ⟨hf, forall_mem_set hf' (forall_mem_retyped i (hT _ ht) hps)⟩
  | extendFunction hi q ht =>
      have hps := hf _ (List.mem_of_getElem? (getElem?_of_find? hi))
      exact ⟨forall_mem_set hf (forall_mem_snoc hps (hT _ ht)), hf'⟩
  | extendMethod hi q ht =>
      have hps := hf' _ (List.mem_of_getElem? (getElem?_of_find? hi))
      exact ⟨hf, forall_mem_set hf' (forall_mem_snoc hps (hT _ ht))⟩
  | bind =>
      refine ⟨fun g hg => ?_, hf'⟩
      obtain ⟨f, hmem, rfl | rfl⟩ := mem_mapUntil hg
      · exact hf f hmem
      · exact hf g hmem

theorem isTypedCorrectly (h : Change (fun m type => m.IsNumbered → m.HasType type) m n)
    (hm : m.IsTypedCorrectly) : n.IsTypedCorrectly := by
  have hg := h.grows hm.numbered
  exact ⟨h.isNumbered hm.numbered, h.types (fun type ht => (ht hm.numbered).grows hg)
    fun p hp => (hm.exist p hp).grows hg⟩

end Change

theorem ReachableBy.isBoundCorrectly {A : Model → Edit → Prop} {m : Model} (h : ReachableBy A m) :
    m.IsBoundCorrectly :=
  h.invariant (T := fun _ _ => True) (fun _ _ _ _ => trivial) (fun _ _ _ _ _ => trivial)
    ⟨isNumbered_empty, fun f hf => by cases hf⟩ Change.isBoundCorrectly

/-- In every model that can be reached, what an occurrence at any depth of a body is bound to exists
and has the name that is written there, and calls are bound to functions and methods. If all types
that edits bring in exist when they are brought in, all types of parameters exist. -/
theorem ReachableBy.targets_and_types_exist {A : Model → Edit → Prop} {m : Model} (h : ReachableBy A m) :
    (∀ f ∈ m.functions, ∀ o ∈ Expr.occurrencesOf f.body, ∀ t, o.target = some t →
      m.Bears f.parameters o.name t ∧ (o.role = .callee → t.IsCallable)) ∧
    ((∀ n e, A n e → ∀ type ∈ e.types, n.HasType type) → ∀ p ∈ m.parameters, m.HasType p.type) := by
  refine ⟨h.isBoundCorrectly.correct, fun hA => ?_⟩
  have hw : Model.WritesFound fun m type => m.IsNumbered → m.HasType type := by
    intro n name type hn hnum
    rw [n.resolveTypeName_eq_typeRule] at hn
    exact Model.hasType_of_typeRule hnum hn
  have ht : m.IsTypedCorrectly :=
    h.invariant hw (fun n e ha type ht _ => hA n e ha type ht)
      ⟨isNumbered_empty, fun p hp => by cases hp⟩ Change.isTypedCorrectly
  exact ht.exist

theorem targets_and_types_exist_move :
    let n := (Model.empty.addType "pose" none).addFunction "move" [⟨"to", .unresolved "pose" none, none⟩]
      [.call "move" [.reference "to" none none] none none] none
    let m := ((Edit.run Stage.resolution).apply ⟨.root, []⟩ n).1
    ReachableBy (fun n e => ∀ type ∈ e.types, n.HasType type) m ∧
      m.Bears [⟨"to", .declared ⟨0⟩, none⟩] "move" (.function ⟨0⟩) ∧
      m.Bears [⟨"to", .declared ⟨0⟩, none⟩] "to" (.parameter 0) ∧
      m.HasType (.declared ⟨0⟩) := by
  intro n m
  let t : Files.Tree := ⟨.root, []⟩
  let A : Model → Edit → Prop := fun n e => ∀ type ∈ e.types, n.HasType type
  have hn : ReachableBy A n := by
    refine .edit (.edit .empty t (.addType "pose" none) Expr.unbound_nil (by simp [A, Edit.types])) t
      (.addFunction "move" [⟨"to", .unresolved "pose" none, none⟩]
        [.call "move" [.reference "to" none none] none none] none) ?_ ?_
    · simp [Expr.Unbound, Edit.body, Expr.occurrencesOf, Expr.occurrences]
    · intro type ht
      obtain rfl := List.mem_singleton.1 ht
      trivial
  have hm : ReachableBy A m := .edit hn t (.run Stage.resolution) Expr.unbound_nil (by simp [A, Edit.types])
  obtain ⟨hb, ht⟩ := hm.targets_and_types_exist
  let f : Function := ⟨⟨⟨0⟩, "move", none⟩, [⟨"to", .declared ⟨0⟩, none⟩],
    [.call "move" [.reference "to" (some (.parameter 0)) none] (some (.function ⟨0⟩)) none]⟩
  have hf : m.functions = [f] := rfl
  have hmem : f ∈ m.functions := hf ▸ List.mem_cons_self
  exact ⟨hm, (hb f hmem ⟨.callee, "move", some (.function ⟨0⟩), none⟩ List.mem_cons_self _ rfl).1,
    (hb f hmem ⟨.value, "to", some (.parameter 0), none⟩ (.tail _ List.mem_cons_self) _ rfl).1,
    ht (fun _ _ h => h) ⟨"to", .declared ⟨0⟩, none⟩ List.mem_cons_self⟩

end RobotLang
