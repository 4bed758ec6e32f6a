import RobotLang.Proofs.Occurrence

namespace RobotLang

namespace Expr

/-- An expression stands in a list of expressions, at any depth. -/
inductive Within (e : Expr) : List Expr → Prop
  | here {es : List Expr} (h : e ∈ es) : Within e es
  | call {es args : List Expr} {name target position} (h : call name args target position ∈ es)
      (hw : Within e args) : Within e es
  | ros {es args : List Expr} {kind topic position} (h : ros kind topic args position ∈ es)
      (hw : Within e args) : Within e es

theorem Within.mono {e : Expr} {es fs : List Expr} (h : Within e es) (hs : es ⊆ fs) : Within e fs := by
  cases h with
  | here h => exact .here (hs h)
  | call h hw => exact .call (hs h) hw
  | ros h hw => exact .ros (hs h) hw

mutual

theorem within_of_mem_rosCalls {c : RosCall} : ∀ e : Expr, c ∈ e.rosCalls →
    ∃ args position, Within (.ros c.kind c.topic args position) [e]
  | literal .., h | reference .., h | abstract, h => by simp [rosCalls] at h
  | call name args target position, h => by
      obtain ⟨args', position', hw⟩ := within_of_mem_rosCallsOf args (by simpa [rosCalls] using h)
      exact ⟨args', position', .call List.mem_cons_self hw⟩
  | ros kind topic args position, h => by
      simp only [rosCalls, List.mem_cons] at h
      rcases h with rfl | h
      · exact ⟨args, position, .here List.mem_cons_self⟩
      · obtain ⟨args', position', hw⟩ := within_of_mem_rosCallsOf args h
        exact ⟨args', position', .ros List.mem_cons_self hw⟩

theorem within_of_mem_rosCallsOf {c : RosCall} : ∀ es : List Expr, c ∈ rosCallsOf es →
    ∃ args position, Within (.ros c.kind c.topic args position) es
  | [], h => by simp [rosCallsOf] at h
  | e :: es, h => by
      simp only [rosCallsOf, List.mem_append] at h
      rcases h with h | h
      · obtain ⟨args, position, hw⟩ := within_of_mem_rosCalls e h
        exact ⟨args, position, hw.mono (by simp)⟩
      · obtain ⟨args, position, hw⟩ := within_of_mem_rosCallsOf es h
        exact ⟨args, position, hw.mono (by simp)⟩

end

theorem mem_rosCallsOf_of_within {c : RosCall} {es : List Expr} {args : List Expr}
    {position : Option Position} (h : Within (.ros c.kind c.topic args position) es) :
    c ∈ rosCallsOf es := by
  induction h with
  | here h =>
      rw [rosCallsOf_eq_flatMap]
      exact List.mem_flatMap.2 ⟨_, h, by simp [rosCalls]⟩
  | call h _ ih =>
      rw [rosCallsOf_eq_flatMap]
      exact List.mem_flatMap.2 ⟨_, h, by simpa [rosCalls] using ih⟩
  | ros h _ ih =>
      rw [rosCallsOf_eq_flatMap]
      exact List.mem_flatMap.2 ⟨_, h, by simp [rosCalls, ih]⟩

theorem mem_rosCallsOf_iff {c : RosCall} {es : List Expr} :
    c ∈ rosCallsOf es ↔ ∃ args position, Within (.ros c.kind c.topic args position) es :=
  ⟨within_of_mem_rosCallsOf es, fun ⟨_, _, h⟩ => mem_rosCallsOf_of_within h⟩

end Expr

structure Site where
  parameters : List Parameter
  occurrence : Occurrence
  deriving DecidableEq, Repr

def Function.sites (f : Function) : List Site := (Expr.occurrencesOf f.body).map (⟨f.parameters, ·⟩)

def Function.unbound (f : Function) : Function := { f with body := Expr.shapes f.body }

namespace Model

variable (m : Model)

def sites : List Site := m.functions.flatMap Function.sites

def unbound : Model := { m with functions := m.functions.map Function.unbound }

def Bindable (x : Site) : Prop :=
  match x.occurrence.role with
  | .value =>
    (∃ p ∈ x.parameters, p.name = x.occurrence.name) ∨
      (∃ f ∈ m.functions, f.name = x.occurrence.name) ∨ m.DeclaresType x.occurrence.name
  | .callee =>
    (∃ f ∈ m.functions, f.name = x.occurrence.name) ∨ ∃ f ∈ m.methods, f.name = x.occurrence.name

/-- What an occurrence is bound to, if there is anything. -/
def bindingRule (x : Site) : Option Target :=
  match x.occurrence.role with
  | .value =>
    ((x.parameters.findIdx? fun p => p.name = x.occurrence.name).map fun i => .parameter i).or
      (m.valueRule x.occurrence.name)
  | .callee => m.calleeRule x.occurrence.name

def bound (x : Site) : Site :=
  { x with occurrence := { x.occurrence with target := m.bindingRule x } }

theorem isSome_bindingRule_iff (x : Site) : (m.bindingRule x).isSome ↔ m.Bindable x := by
  rcases x with ⟨ps, ⟨_ | _, name, target, position⟩⟩
  · simp only [bindingRule, Bindable, valueRule, Option.isSome_or, Option.isSome_map,
      List.findIdx?_isSome, Bool.or_eq_true, isSome_lastNamed_iff, isSome_typeRule_iff, List.any_eq_true,
      List.mem_map, decide_eq_true_eq]
    grind
  · simp only [bindingRule, Bindable, calleeRule, Option.isSome_or, Option.isSome_map,
      Bool.or_eq_true, isSome_lastNamed_iff, List.mem_map]
    grind

instance (x : Site) : Decidable (m.Bindable x) := decidable_of_iff _ (m.isSome_bindingRule_iff x)

theorem targetIn_ofModel (x : Site) :
    x.occurrence.targetIn (Scope.ofModel m) x.parameters = m.bindingRule x := by
  rcases x with ⟨ps, ⟨_ | _, name, target, position⟩⟩
  · simp only [Occurrence.targetIn, Expr.valueTarget, parameterIndex?, value?_ofModel, bindingRule]
    cases List.findIdx? (fun p => p.name == name) ps <;> rfl
  · simp only [Occurrence.targetIn, callable?_ofModel, bindingRule]

def bindSite (x : Site) : Site × Option Error :=
  match m.bindingRule x with
  | some target => ({ x with occurrence := { x.occurrence with target := some target } }, none)
  | none => (x, some (.unresolved x.occurrence.element x.occurrence.position))

theorem sites_bindFunction (f : Function) :
    ((bindFunction (Scope.ofModel m) f).1.sites, (bindFunction (Scope.ofModel m) f).2) =
      mapUntil m.bindSite f.sites := by
  have ho := Expr.occurrencesOf_bindAll (Scope.ofModel m) f.parameters f.body
  have hx : ∀ o : Occurrence, m.bindSite ⟨f.parameters, o⟩ =
      (⟨f.parameters, (o.bind (Scope.ofModel m) f.parameters).1⟩,
        (o.bind (Scope.ofModel m) f.parameters).2.map id) := by
    intro o
    rw [bindSite, Occurrence.bind, m.targetIn_ofModel ⟨f.parameters, o⟩]
    cases m.bindingRule ⟨f.parameters, o⟩ <;> rfl
  rw [show f.sites = (Expr.occurrencesOf f.body).map (Site.mk f.parameters) from rfl,
    mapUntil_map _ _ _ _ hx, ← ho, Option.map_id_fun]
  rfl

/-- The pass over the functions is the pass over the occurrences in them. -/
theorem sites_mapUntil_bindFunction :
    ((mapUntil (bindFunction (Scope.ofModel m)) m.functions).1.flatMap Function.sites,
        (mapUntil (bindFunction (Scope.ofModel m)) m.functions).2) =
      mapUntil m.bindSite m.sites :=
  mapUntil_flatMap m.bindSite _ Function.sites m.sites_bindFunction m.functions

theorem resolveExpressions_sites :
    (m.resolveExpressions.1.sites, m.resolveExpressions.2) = mapUntil m.bindSite m.sites := by
  rw [← sites_mapUntil_bindFunction, resolveExpressions]
  rcases mapUntil (bindFunction (Scope.ofModel m)) m.functions with ⟨functions, _ | e⟩ <;> rfl

theorem resolveExpressions_rosCalls :
    m.resolveExpressions.1.rosCalls =
      match m.resolveExpressions.2 with
      | none => m.rosCalls.insertAll (m.functions.flatMap fun f => Expr.rosCallsOf f.body)
      | some _ => m.rosCalls := by
  rw [resolveExpressions]
  rcases mapUntil (bindFunction (Scope.ofModel m)) m.functions with ⟨functions, _ | e⟩ <;> rfl

theorem unbound_resolveExpressions :
    m.resolveExpressions.1.unbound = { m.unbound with rosCalls := m.resolveExpressions.1.rosCalls } := by
  have hf : (mapUntil (bindFunction (Scope.ofModel m)) m.functions).1.map Function.unbound =
      m.functions.map Function.unbound :=
    map_mapUntil _ _ (fun f => by
      simp only [Function.unbound, bindFunction, Expr.shapes_bindAll]) m.functions
  rw [resolveExpressions]
  rcases h : mapUntil (bindFunction (Scope.ofModel m)) m.functions with ⟨functions, _ | e⟩ <;>
    rw [h] at hf <;> simp only [unbound, hf]

theorem bindSite_of_bindable {x : Site} (h : m.Bindable x) : m.bindSite x = (m.bound x, none) := by
  obtain ⟨target, ht⟩ := Option.isSome_iff_exists.1 ((m.isSome_bindingRule_iff x).2 h)
  simp only [bindSite, bound, ht]

theorem bindSite_of_not_bindable {x : Site} (h : ¬ m.Bindable x) :
    m.bindSite x = (x, some (.unresolved x.occurrence.element x.occurrence.position)) := by
  rw [← isSome_bindingRule_iff, Option.not_isSome_iff_eq_none] at h
  simp only [bindSite, h]

/-- Identifier resolution binds every occurrence by the rule, or all of them before the first that
cannot be bound, which is the one that is reported. ROS calls are registered only if everything is
bound, and nothing but targets and the registry changes. -/
theorem resolveExpressions_binds_by_rule :
    ((∀ x ∈ m.sites, m.Bindable x) →
      m.resolveExpressions.2 = none ∧
      m.resolveExpressions.1.sites = m.sites.map m.bound ∧
      ∀ c, c ∈ m.resolveExpressions.1.rosCalls ↔
        c ∈ m.rosCalls ∨
          ∃ f ∈ m.functions, ∃ args position, Expr.Within (.ros c.kind c.topic args position) f.body) ∧
    (∀ before x after, m.sites = before ++ x :: after → (∀ y ∈ before, m.Bindable y) → ¬ m.Bindable x →
      m.resolveExpressions.2 = some (.unresolved x.occurrence.element x.occurrence.position) ∧
      m.resolveExpressions.1.sites = before.map m.bound ++ x :: after ∧
      m.resolveExpressions.1.rosCalls = m.rosCalls) ∧
    m.resolveExpressions.1.unbound =
      { m.unbound with rosCalls := m.resolveExpressions.1.rosCalls } := by
  have hs := m.resolveExpressions_sites
  have hc := m.resolveExpressions_rosCalls
  refine ⟨fun h => ?_, fun before x after hx hb hn => ?_, m.unbound_resolveExpressions⟩
  · rw [mapUntil_eq_map _ _ fun x hx => by rw [m.bindSite_of_bindable (h x hx)], Prod.mk.injEq] at hs
    obtain ⟨hsites, herror⟩ := hs
    refine ⟨herror, ?_, fun c => ?_⟩
    · rw [hsites]
      exact List.map_congr_left fun x hx => by rw [m.bindSite_of_bindable (h x hx)]
    · rw [hc, herror, CallRegistry.mem_insertAll, List.mem_flatMap]
      simp only [Expr.mem_rosCallsOf_iff]
  · have hf := m.bindSite_of_not_bindable hn
    rw [hx, mapUntil_of_failure _ (fun y hy => by rw [m.bindSite_of_bindable (hb y hy)]) (by rw [hf]),
      hf, Prod.mk.injEq] at hs
    obtain ⟨hsites, herror⟩ := hs
    refine ⟨herror, ?_, ?_⟩
    · rw [hsites, List.map_congr_left fun y hy => by rw [m.bindSite_of_bindable (hb y hy)]]
    · rw [hc, herror]

theorem resolveExpressions_binds_by_rule_go :
    let m := (Model.empty.addType "pose" none).addFunction "go" [⟨"pose", .boolean, none⟩]
      [.call "go" [.ros .publish "at" [.reference "pose" none none] none] none none] none
    let n := m.addFunction "halt" []
      [.reference "pose" none none, .call "pose" [.reference "go" none none] none none] none
    (m.resolveExpressions.2 = none ∧
      m.resolveExpressions.1.sites.map (·.occurrence.target) = [some (.function ⟨0⟩), some (.parameter 0)] ∧
      ⟨"at", .publish⟩ ∈ m.resolveExpressions.1.rosCalls) ∧
    n.resolveExpressions.2 = some (.unresolved "function 'pose'" none) ∧
      n.resolveExpressions.1.sites.map (·.occurrence.target) =
        [some (.function ⟨0⟩), some (.parameter 0), some (.type (.declared ⟨0⟩)), none, none] ∧
      n.resolveExpressions.1.rosCalls = .empty := by
  intro m n
  have hm : ∀ x ∈ m.sites, m.Bindable x := by decide
  obtain ⟨he, hsites, hcalls⟩ := m.resolveExpressions_binds_by_rule.1 hm
  obtain ⟨hfe, hfsites, hfcalls⟩ := n.resolveExpressions_binds_by_rule.2.1 (n.sites.take 3)
    ⟨[], ⟨.callee, "pose", none, none⟩⟩ (n.sites.drop 4) (by decide) (by decide) (by decide)
  refine ⟨⟨he, ?_, (hcalls _).2 (.inr ?_)⟩, hfe, ?_, hfcalls⟩
  · rw [hsites]
    decide
  · exact ⟨_, List.mem_singleton_self _, _, _, .call List.mem_cons_self (.here List.mem_cons_self)⟩
  · rw [hfsites]
    decide

end Model

end RobotLang
