import RobotLang.Proofs.StageOrder
import RobotLang.Proofs.Stores

namespace RobotLang

open Files

variable {scope scope' : Scope}

namespace EntityId

variable {α : Type} {kind : Kind}

def modify (id : EntityId kind) (g : α → α) (store : List α) : List α :=
  match id.find? store with
  | none => store
  | some a => store.set id.index.toNat (g a)

theorem modify_eq (id : EntityId kind) (g : α → α) (store : List α) :
    id.modify g store = if 0 ≤ id.index then store.modify id.index.toNat g else store := by
  by_cases hid : 0 ≤ id.index
  · rw [modify, find?, if_pos hid, if_pos hid, List.modify_eq_set_getElem?]
    cases store[id.index.toNat]? <;> rfl
  · rw [modify, find?, if_neg hid, if_neg hid]

end EntityId

theorem Numbered.index_of_find? {α : Type} {kind : Kind} {store : List α} {entity : α → Entity kind}
    (h : Numbered (store.map entity)) {id : EntityId kind} {a : α} (ha : id.find? store = some a) :
    (entity a).id.index.toNat = id.index.toNat := by
  rw [h id.index.toNat (entity a) (by simp [getElem?_of_find? ha])]
  rfl

structure Outlasts {α : Type} (R : List α → List α → Prop) (extended : Parameter → α → α) : Prop where
  length_eq : ∀ {as bs : List α}, R as bs → bs.length = as.length
  append : ∀ {as bs : List α}, R as bs → ∀ a, R (as ++ [a]) (bs ++ [a])
  modify : ∀ {as bs : List α}, R as bs → ∀ i p, R (as.modify i (extended p)) (bs.modify i (extended p))

theorem Outlasts.eq {α : Type} (extended : Parameter → α → α) : Outlasts Eq extended where
  length_eq := by
    rintro _ _ rfl
    rfl
  append := by
    rintro _ _ rfl _
    rfl
  modify := by
    rintro _ _ rfl _ _
    rfl

def Method.extended (p : Parameter) (f : Method) : Method := { f with parameters := f.parameters ++ [p] }

namespace Function

def extended (p : Parameter) (f : Function) : Function := { f with parameters := f.parameters ++ [p] }

def boundIn (scope : Scope) (ps : List Parameter) (f : Function) : Function :=
  { f with body := (Expr.bindAll scope ps f.body).1 }

end Function

/-- What a pass that stops leaves of functions, some of which have got more parameters since. -/
inductive Halted (scope : Scope) : List Function → List Function → Prop
  | unreached (fs : List Function) : Halted scope fs fs
  | failed {f : Function} {ps : List Parameter} (fs : List Function) (hp : ps <+: f.parameters) :
    Halted scope (f :: fs) (f.boundIn scope ps :: fs)
  | passed {f : Function} {ps : List Parameter} {fs gs : List Function} (hp : ps <+: f.parameters)
      (hn : (Expr.bindAll scope ps f.body).2 = none) (h : Halted scope fs gs) :
    Halted scope (f :: fs) (f.boundIn scope ps :: gs)

namespace Halted

variable {fs gs : List Function}

theorem ofPass (scope : Scope) (fs : List Function) :
    Halted scope fs (mapUntil (Model.bindFunction scope) fs).1 := by
  induction fs with
  | nil => exact .unreached []
  | cons f fs ih =>
      rw [fst_mapUntil_cons]
      cases hf : (Model.bindFunction scope f).2 with
      | none => exact .passed List.prefix_rfl hf ih
      | some e => exact .failed fs List.prefix_rfl

theorem append (h : Halted scope fs gs) (f : Function) : Halted scope (fs ++ [f]) (gs ++ [f]) := by
  induction h with
  | unreached fs => exact .unreached _
  | failed fs hp => exact .failed _ hp
  | passed hp hn _ ih => exact .passed hp hn ih

theorem modify_extended (h : Halted scope fs gs) (i : Nat) (p : Parameter) :
    Halted scope (fs.modify i (.extended p)) (gs.modify i (.extended p)) := by
  induction h generalizing i with
  | unreached fs => exact .unreached _
  | failed fs hp =>
      cases i with
      | zero => exact .failed _ (hp.trans (List.prefix_append _ _))
      | succ i => exact .failed _ hp
  | passed hp hn h ih =>
      cases i with
      | zero => exact .passed (hp.trans (List.prefix_append _ _)) hn h
      | succ i => exact .passed hp hn (ih i)

theorem map_unbound (h : Halted scope fs gs) : gs.map Function.unbound = fs.map Function.unbound := by
  have hf : ∀ (f : Function) (ps : List Parameter), (f.boundIn scope ps).unbound = f.unbound := by
    intro f ps
    simp only [Function.unbound, Function.boundIn, Expr.shapes_bindAll]
  induction h with
  | unreached fs => rfl
  | failed fs hp => simp only [List.map_cons, hf]
  | passed hp hn h ih => simp only [List.map_cons, hf, ih]

theorem length_eq (h : Halted scope fs gs) : gs.length = fs.length := by
  simpa using congrArg List.length h.map_unbound

theorem outlasts (scope : Scope) : Outlasts (Halted scope) Function.extended where
  length_eq := length_eq
  append := append
  modify := modify_extended

theorem mapUntil_eq (hc : ∀ {ps qs : List Parameter}, ps <+: qs → Expr.Covers scope ps scope' qs)
    (h : Halted scope fs gs) :
    mapUntil (Model.bindFunction scope') gs = mapUntil (Model.bindFunction scope') fs := by
  have hf : ∀ {f : Function} {ps : List Parameter}, ps <+: f.parameters →
      Model.bindFunction scope' (f.boundIn scope ps) = Model.bindFunction scope' f := by
    intro f ps hp
    simp only [Model.bindFunction, Function.boundIn, (Expr.bindAll_bindAll (hc hp) f.body).1]
  induction h with
  | unreached fs => rfl
  -- Whatever has been bound in this function is bound again, and what comes after it is as it was.
  | failed fs hp => simp only [mapUntil, hf hp]
  | @passed f ps fs gs hp hn h ih =>
      have hnone : Model.bindFunction scope' f = ((Model.bindFunction scope' f).1, none) :=
        Prod.ext rfl ((Expr.bindAll_bindAll (hc hp) f.body).2 hn)
      rw [mapUntil, mapUntil, hf hp, hnone, ih]

end Halted

namespace Model

/-- The second model is the first one, but for its functions and its methods, which are related. -/
structure Alike (F : List Function → List Function → Prop) (M : List Method → List Method → Prop)
    (m n : Model) : Prop where
  functions : F m.functions n.functions
  methods : M m.methods n.methods
  rest : n = { m with functions := n.functions, methods := n.methods }

/-- The second model is the first one, but for a pass over the bodies that has stopped. -/
abbrev Behind (scope : Scope) : Model → Model → Prop := Alike (Halted scope) Eq

variable {m n : Model}

theorem behind_resolveExpressions {e : Error} (h : m.resolveExpressions.2 = some e) :
    Behind (Scope.ofModel m) m m.resolveExpressions.1 := by
  rw [resolveExpressions_of_headings rfl] at h ⊢
  have he : (mapUntil (bindFunction (Scope.ofModel m)) m.functions).2 = some e := h
  exact ⟨.ofPass _ m.functions, rfl, by simp only [he, Option.isSome_some, if_true]⟩

theorem Grows.covers (h : m.Grows n) {ps qs : List Parameter} (hp : ps <+: qs) :
    Expr.Covers (Scope.ofModel m) ps (Scope.ofModel n) qs := by
  have hf : ∀ name, (∃ f ∈ m.functions, f.name = name) → ∃ f ∈ n.functions, f.name = name := by
    rintro _ ⟨f, hmem, rfl⟩
    obtain ⟨g, hg, hfg⟩ := h.functions.exists_of_mem hmem
    exact ⟨g, hg, congrArg Entity.name hfg.entity⟩
  have hm : ∀ name, (∃ f ∈ m.methods, f.name = name) → ∃ f ∈ n.methods, f.name = name := by
    rintro _ ⟨f, hmem, rfl⟩
    obtain ⟨g, hg, hfg⟩ := h.methods.exists_of_mem hmem
    exact ⟨g, hg, congrArg Entity.name hfg.entity⟩
  intro o ho
  rw [targetIn_ofModel n ⟨qs, o⟩, isSome_bindingRule_iff]
  rw [targetIn_ofModel m ⟨ps, o⟩, isSome_bindingRule_iff] at ho
  rcases o with ⟨_ | _, name, target, position⟩
  · rcases ho with ⟨p, hmem, hn⟩ | ho | ⟨s, hmem, hn⟩ | ⟨t, hmem, hn⟩ | ⟨t, hmem, hn⟩
    · exact .inl ⟨p, hp.subset hmem, hn⟩
    · exact .inr (.inl (hf name ho))
    · exact .inr (.inr (.inl ⟨s, h.skillsets.subset hmem, hn⟩))
    · exact .inr (.inr (.inr (.inl ⟨t, h.importedTypes.subset hmem, hn⟩)))
    · exact .inr (.inr (.inr (.inr ⟨t, h.types.subset hmem, hn⟩)))
  · exact ho.imp (hf name) (hm name)

/-- In a scope that has grown, the next pass makes up for the one that stopped. -/
theorem Behind.resolveExpressions_eq {m₀ : Model} (h : Behind (Scope.ofModel m₀) m n) (hg : m₀.Grows m) :
    n.resolveExpressions = m.resolveExpressions := by
  have hu : n.unbound = m.unbound := by
    rw [h.rest]
    simp only [unbound, h.functions.map_unbound, ← h.methods]
  have hh : n.headings = m.headings := by rw [← headings_unbound, hu, headings_unbound]
  have hb : n.bodyCalls = m.bodyCalls := by rw [← bodyCalls_unbound, hu, bodyCalls_unbound]
  rw [resolveExpressions_of_headings hh, resolveExpressions_of_headings rfl,
    h.functions.mapUntil_eq hg.covers, hb, h.rest, ← h.methods]

theorem appendParameter_function (hm : m.IsNumbered) (id : EntityId .function) (p : Parameter) :
    (Edit.orKeep m (m.appendParameter (.id .function id) p)).1 =
      { m with functions := id.modify (.extended p) m.functions } := by
  simp only [appendParameter, lookup, get?, EntityId.modify]
  cases hf : id.find? m.functions with
  | none => rfl
  | some f => simp only [Option.map_some, Edit.orKeep, setFunction, hm.functions.index_of_find? hf]; rfl

theorem appendParameter_method (hm : m.IsNumbered) (id : EntityId .method) (p : Parameter) :
    (Edit.orKeep m (m.appendParameter (.id .method id) p)).1 =
      { m with methods := id.modify (.extended p) m.methods } := by
  simp only [appendParameter, lookup, get?, EntityId.modify]
  cases hf : id.find? m.methods with
  | none => rfl
  | some f => simp only [Option.map_some, Edit.orKeep, setMethod, hm.methods.index_of_find? hf]; rfl

end Model

namespace Edit

def IsAddition : Edit → Prop
  | setParameterType .. | run .. => False
  | _ => True

variable {m n : Model}

section

variable {F : List Function → List Function → Prop} {M : List Method → List Method → Prop}

theorem alike_appendParameter (hF : Outlasts F Function.extended) (hM : Outlasts M Method.extended)
    (h : Model.Alike F M m n) (hm : m.IsNumbered) (hn : n.IsNumbered) (t : Tree) (owner : Key) (p : Parameter) :
    Model.Alike F M ((appendParameter owner p).apply t m).1 ((appendParameter owner p).apply t n).1 := by
  obtain ⟨hf, hmethods, hrest⟩ := h
  cases owner with
  | id kind id =>
      cases kind with
      | function =>
          simp only [apply, Model.appendParameter_function hm, Model.appendParameter_function hn]
          refine ⟨?_, hmethods, by rw [hrest]⟩
          simp only [EntityId.modify_eq]
          split
          · exact hF.modify hf _ p
          · exact hf
      | method =>
          simp only [apply, Model.appendParameter_method hm, Model.appendParameter_method hn]
          refine ⟨hf, ?_, by rw [hrest]⟩
          simp only [EntityId.modify_eq]
          split
          · exact hM.modify hmethods _ p
          · exact hmethods
      | robot | type =>
          rw [hrest]
          simp only [apply, Model.appendParameter, Model.lookup, Model.get?]
          cases id.find? _ <;> exact ⟨hf, hmethods, rfl⟩
      | _ => exact ⟨hf, hmethods, hrest⟩
  | _ => exact ⟨hf, hmethods, hrest⟩

theorem alike_withImported (h : Model.Alike F M m n) (load : Imported → Except Error Imported) :
    Model.Alike F M (withImported m (load m.imported)).1 (withImported n (load n.imported)).1 := by
  obtain ⟨hf, hmethods, hrest⟩ := h
  have hi : n.imported = m.imported := by rw [hrest]
  rw [hi, hrest]
  cases load m.imported <;> exact ⟨hf, hmethods, rfl⟩

theorem alike_apply (hF : Outlasts F Function.extended) (hM : Outlasts M Method.extended)
    (h : Model.Alike F M m n) (hm : m.IsNumbered) (hn : n.IsNumbered) (t : Tree) {e : Edit}
    (he : e.IsAddition) : Model.Alike F M (e.apply t m).1 (e.apply t n).1 := by
  have hf := h.functions
  have hmethods := h.methods
  cases e with
  | setParameterType | run => exact he.elim
  | addFunction name ps body position =>
      refine ⟨?_, hmethods, by rw [h.rest]; rfl⟩
      simp only [apply, Model.addFunction, EntityId.next, hF.length_eq hf]
      exact hF.append hf _
  | addMethod name ps position =>
      refine ⟨hf, ?_, by rw [h.rest]; rfl⟩
      simp only [apply, Model.addMethod, EntityId.next, hM.length_eq hmethods]
      exact hM.append hmethods _
  | appendParameter owner p => exact alike_appendParameter hF hM h hm hn t owner p
  | loadSkillset text => exact alike_withImported h (·.load ⟨none, text.toList⟩)
  | loadSkillsetFile path => exact alike_withImported h (·.loadFile t path)
  | _ =>
      rw [h.rest]
      exact ⟨hf, hmethods, rfl⟩

theorem alike_after (hF : Outlasts F Function.extended) (hM : Outlasts M Method.extended)
    (h : Model.Alike F M m n) (hm : m.IsNumbered) (hn : n.IsNumbered) {additions : List (Tree × Edit)}
    (ha : ∀ x ∈ additions, x.2.IsAddition) : Model.Alike F M (after m additions) (after n additions) := by
  induction additions generalizing m n with
  | nil => exact h
  | cons x additions ih =>
      obtain ⟨hx, ha⟩ := List.forall_mem_cons.1 ha
      exact ih (alike_apply hF hM h hm hn x.1 hx) (grows_apply x.1 hm x.2).1 (grows_apply x.1 hn x.2).1 ha

end

theorem behind_after (h : Model.Behind scope m n) (hm : m.IsNumbered) (hn : n.IsNumbered)
    {additions : List (Tree × Edit)} (ha : ∀ x ∈ additions, x.2.IsAddition) :
    Model.Behind scope (after m additions) (after n additions) :=
  alike_after (Halted.outlasts scope) (.eq _) h hm hn ha

end Edit

/-- Identifier resolution that has failed can be run again after additions as if it had never run: it
ends in the same way, and with the same model, as after the additions alone. -/
theorem Reachable.retry_after_additions {m : Model} (h : Reachable m) {e : Error}
    (he : m.resolveExpressions.2 = some e) {additions : List (Tree × Edit)}
    (ha : ∀ x ∈ additions, x.2.IsAddition) :
    (Edit.after m.resolveExpressions.1 additions).resolveExpressions =
      (Edit.after m additions).resolveExpressions := by
  have hm : m.IsNumbered := h.isNumbered
  have hn : m.resolveExpressions.1.IsNumbered := Model.isNumbered_resolveExpressions hm
  have hbehind := Edit.behind_after (Model.behind_resolveExpressions he) hm hn ha
  exact hbehind.resolveExpressions_eq (Edit.grows_after hm additions).2

theorem Reachable.retry_after_additions_go :
    let t : Tree := ⟨.root, []⟩
    let m := ((Model.empty.addType "pose" none).addFunction "go" []
      [.reference "pose" none none, .reference "speed" none none] none).addFunction "halt" []
      [.ros .publish "halted" [.reference "why" none none] none] none
    let additions : List (Tree × Edit) := [(t, .addFunction "pose" [] [] none),
      (t, .appendParameter (.id .function ⟨0⟩) ⟨"speed", .boolean, none⟩)]
    let r := (Edit.after m.resolveExpressions.1 additions).resolveExpressions
    Reachable m ∧ m.resolveExpressions.2 = some (.unresolved "identifier 'speed'" none) ∧
      r = (Edit.after m additions).resolveExpressions ∧
      r.2 = some (.unresolved "identifier 'why'" none) ∧
      (r.1.functions.map fun f => Expr.bindingsOf f.body) =
        [[("pose", some (.function ⟨2⟩)), ("speed", some (.parameter 0))], [("why", none)], []] := by
  intro t m additions r
  have hempty : Reachable .empty := .empty
  have hm : Reachable m := hempty.applyAll t [.addType "pose" none,
    .addFunction "go" [] [.reference "pose" none none, .reference "speed" none none] none,
    .addFunction "halt" [] [.ros .publish "halted" [.reference "why" none none] none] none] (by decide)
  have he : m.resolveExpressions.2 = some (.unresolved "identifier 'speed'" none) := by decide
  have ha : ∀ x ∈ additions, x.2.IsAddition := by simp [additions, Edit.IsAddition]
  have hr : r = (Edit.after m additions).resolveExpressions := hm.retry_after_additions he ha
  refine ⟨hm, he, hr, ?_, ?_⟩
  · rw [hr]
    decide
  · rw [hr]
    decide

end RobotLang
