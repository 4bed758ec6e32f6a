import Mathlib.Data.List.Forall2
import RobotLang.Proofs.Retry

namespace RobotLang

open Files

section

variable {α ε : Type}

theorem forall₂_mapUntil (f : α → α × Option ε) (as : List α) :
    List.Forall₂ (fun a b => b = a ∨ b = (f a).1) as (mapUntil f as).1 := by
  induction as with
  | nil => exact .nil
  | cons a as ih =>
      rw [fst_mapUntil_cons]
      refine .cons (.inr rfl) ?_
      split
      · exact List.forall₂_same.2 fun _ _ => .inl rfl
      · exact ih

theorem mapUntil_of_forall₂ {f : α → α × Option ε} {as bs : List α}
    (h : List.Forall₂ (fun a b => f b = f a) as bs) :
    (mapUntil f bs).2 = (mapUntil f as).2 ∧
      ((mapUntil f as).2 = none → (mapUntil f bs).1 = (mapUntil f as).1) := by
  induction h with
  | nil => exact ⟨rfl, fun _ => rfl⟩
  | cons hab _ ih =>
      obtain ⟨herror, hnone⟩ := ih
      simp only [fst_mapUntil_cons, snd_mapUntil_cons, hab, herror, true_and, Option.or_eq_none_iff]
      rintro ⟨ha, has⟩
      simp only [ha, hnone has, Option.isSome_none, Bool.false_eq_true, if_false]

theorem outlasts_forall₂ {R : α → α → Prop} (hr : ∀ a, R a a) {extended : Parameter → α → α}
    (hx : ∀ {a b}, R a b → ∀ p, R (extended p a) (extended p b)) : Outlasts (List.Forall₂ R) extended where
  length_eq := fun h => h.length_eq.symm
  append := fun h a => List.rel_append h (.cons (hr a) .nil)
  modify := by
    intro as bs h i p
    induction h generalizing i with
    | nil => cases i <;> exact .nil
    | cons hab h ih =>
        cases i with
        | zero => exact .cons (hx hab p) h
        | succ i => exact .cons hab (ih i)

end

theorem lastNamed_of_isPrefix {kind : Kind} {name : String} {es fs : List (Entity kind)} (h : es <+: fs)
    (hn : ∀ e ∈ fs.drop es.length, e.name ≠ name) : lastNamed name fs = lastNamed name es := by
  obtain ⟨more, rfl⟩ := h
  rw [List.drop_left] at hn
  induction es with
  | nil => exact lastNamed_eq_none_iff.2 hn
  | cons e es ih => rw [List.cons_append, lastNamed_cons, lastNamed_cons, ih]

namespace Model

/-- What the second model declares as types and skillsets besides the first one has names that the first
one does not know. -/
structure NewTypeNames (m n : Model) : Prop where
  types : ∀ t ∈ n.types.drop m.types.length, ¬ m.DeclaresType t.name
  importedTypes : ∀ t ∈ n.imported.types.drop m.imported.types.length, ¬ m.DeclaresType t.name
  skillsets : ∀ s ∈ n.imported.skillsets.drop m.imported.skillsets.length, ¬ m.DeclaresType s.name

variable {m n : Model}

theorem Grows.typeRule_eq (hg : m.Grows n) (hnew : m.NewTypeNames n) {name : String} {type : ParamType}
    (ht : m.typeRule name = some type) : n.typeRule name = some type := by
  have hd : m.DeclaresType name := (m.isSome_typeRule_iff name).1 (by rw [ht, Option.isSome_some])
  have htypes := lastNamed_of_isPrefix hg.types fun t hmem hname => hnew.types t hmem (hname ▸ hd)
  have himported := lastNamed_of_isPrefix hg.importedTypes fun t hmem hname =>
    hnew.importedTypes t hmem (hname ▸ hd)
  have hskillsets : lastNamed name (n.imported.skillsets.map (·.toEntity)) =
      lastNamed name (m.imported.skillsets.map (·.toEntity)) := by
    refine lastNamed_of_isPrefix (hg.skillsets.map _) ?_
    rw [List.length_map, ← List.map_drop]
    rintro _ hmem hname
    obtain ⟨s, hs, rfl⟩ := List.mem_map.1 hmem
    exact hnew.skillsets s hs (hname ▸ hd)
  rw [← ht, typeRule, typeRule, htypes, himported, hskillsets]

end Model

def TypedBy (rule : String → Option ParamType) (p q : Parameter) : Prop :=
  q = p ∨ q = (typeStep rule p).1

theorem typeStep_of_extends {rule rule' : String → Option ParamType}
    (hx : ∀ name type, rule name = some type → rule' name = some type) {p : Parameter}
    (h : (typeStep rule p).2 = none) : (typeStep rule' p).2 = none := by
  cases hp : p.type with
  | unresolved name position =>
      cases ht : rule name with
      | none => simp [typeStep, hp, ht] at h
      | some type => simp only [typeStep, hp, hx name type ht]
  | _ => simp only [typeStep, hp]

theorem eq_unresolved_of_typeStep {rule : String → Option ParamType} {p : Parameter} {e : Error}
    (h : (typeStep rule p).2 = some e) :
    ∃ name position, p.type = .unresolved name position ∧ e = .unresolved s!"type '{name}'" position := by
  cases hp : p.type with
  | unresolved name position =>
      cases ht : rule name with
      | none =>
          simp only [typeStep, hp, ht, Option.some.injEq] at h
          exact ⟨name, position, rfl, h.symm⟩
      | some type => simp [typeStep, hp, ht] at h
  | _ => simp [typeStep, hp] at h

theorem TypedBy.untyped_eq {rule : String → Option ParamType} {p q : Parameter} (h : TypedBy rule p q) :
    ({ q with type := .undefined } : Parameter) = { p with type := .undefined } := by
  rcases h with rfl | rfl
  · rfl
  · exact rest_typeStep rule p

namespace Owners

variable {α : Type} {kind : Kind} (S : Owners α kind)

/-- The second entry is the first one, but for types that some of its parameters have got already. -/
structure Pretyped (a b : α) : Prop where
  rest : S.having a (S.parameters b) = b
  parameters : List.Forall₂ (TypedBy S.rule) (S.parameters a) (S.parameters b)

def untyped (a : α) : α := S.having a (untypedParameters (S.parameters a))

variable {S}

theorem Pretyped.refl (a : α) : S.Pretyped a a :=
  ⟨S.having_parameters a, List.forall₂_same.2 fun _ _ => .inl rfl⟩

theorem Pretyped.typeOwner (a : α) : S.Pretyped a (S.typeOwner a).1 := by
  constructor
  · simp only [Owners.typeOwner, S.parameters_having]
  · simp only [Owners.typeOwner, S.parameters_having]
    exact forall₂_mapUntil (typeStep S.rule) (S.parameters a)

theorem Pretyped.ofPass (as : List α) : List.Forall₂ S.Pretyped as (mapUntil S.typeOwner as).1 := by
  refine (forall₂_mapUntil S.typeOwner as).imp fun a b h => ?_
  rcases h with rfl | rfl
  · exact .refl _
  · exact .typeOwner a

theorem Pretyped.extended {a b : α} (h : S.Pretyped a b) (p : Parameter) :
    S.Pretyped (S.having a (S.parameters a ++ [p])) (S.having b (S.parameters b ++ [p])) := by
  constructor
  · rw [S.parameters_having, S.having_having, ← h.rest, S.having_having, h.rest]
  · rw [S.parameters_having, S.parameters_having]
    exact List.rel_append h.parameters (.cons (.inl rfl) .nil)

theorem Pretyped.untyped_eq {a b : α} (h : S.Pretyped a b) : S.untyped b = S.untyped a := by
  have hps : untypedParameters (S.parameters b) = untypedParameters (S.parameters a) := by
    rw [← List.forall₂_eq_eq_eq, untypedParameters, untypedParameters, List.forall₂_map_left_iff,
      List.forall₂_map_right_iff]
    exact (h.parameters.imp fun _ _ => TypedBy.untyped_eq).flip
  rw [untyped, untyped, hps, ← h.rest, S.having_having]

theorem map_untyped_of_pretyped {as bs : List α} (h : List.Forall₂ S.Pretyped as bs) :
    bs.map S.untyped = as.map S.untyped := by
  rw [← List.forall₂_eq_eq_eq, List.forall₂_map_left_iff, List.forall₂_map_right_iff]
  exact (h.imp fun _ _ => Pretyped.untyped_eq).flip

theorem parameters_untyped (as : List α) :
    (as.map S.untyped).flatMap S.parameters = untypedParameters (as.flatMap S.parameters) := by
  simp only [List.flatMap_map, untyped, S.parameters_having, untypedParameters, List.map_flatMap]

theorem eq_of_untyped {as bs : List α} (hu : as.map S.untyped = bs.map S.untyped)
    (hp : as.flatMap S.parameters = bs.flatMap S.parameters) : as = bs := by
  induction as generalizing bs with
  | nil => exact (List.map_eq_nil_iff.1 hu.symm).symm
  | cons a as ih =>
      obtain ⟨b, bs, rfl, hab, hu⟩ := List.map_eq_cons_iff.1 hu.symm
      -- The parameters of all entries are one row; how many belong to the first entry the rest tells.
      have hlength : (S.parameters b).length = (S.parameters a).length := by
        have hps := congrArg (fun c => (S.parameters c).length) hab
        simpa only [untyped, S.parameters_having, untypedParameters, List.length_map] using hps
      obtain ⟨hps, hrest⟩ := List.append_inj hp hlength.symm
      have hb : b = a := by
        have hself := congrArg (S.having · (S.parameters a)) hab
        simp only [untyped, S.having_having, S.having_parameters] at hself
        rwa [hps, S.having_parameters] at hself
      rw [hb, ih hu.symm hrest]

end Owners

namespace Model

variable {m₀ m n : Model}

theorem eq_of_untyped (hu : m.untyped = n.untyped) (hp : m.parameters = n.parameters) : m = n := by
  have hfu : m.functions.map (Owners.functions m).untyped = n.functions.map (Owners.functions m).untyped :=
    congrArg Model.functions hu
  have hmu : m.methods.map (Owners.methods m).untyped = n.methods.map (Owners.methods m).untyped :=
    congrArg Model.methods hu
  have hlength : (m.functions.flatMap (Owners.functions m).parameters).length =
      (n.functions.flatMap (Owners.functions m).parameters).length := by
    have hps := congrArg (fun fs => (fs.flatMap (Owners.functions m).parameters).length) hfu
    simpa only [Owners.parameters_untyped, untypedParameters, List.length_map] using hps
  obtain ⟨hfp, hmp⟩ := List.append_inj hp hlength
  have hrest : { m.untyped with functions := m.functions, methods := m.methods } =
      { n.untyped with functions := n.functions, methods := n.methods } := by
    rw [hu, Owners.eq_of_untyped hfu hfp, Owners.eq_of_untyped hmu hmp]
  exact hrest

/-- The second model is the first one, but for types by the rule of a third one that some parameters have
got already. -/
abbrev Pretyped (m₀ : Model) : Model → Model → Prop :=
  Alike (List.Forall₂ (Owners.functions m₀).Pretyped) (List.Forall₂ (Owners.methods m₀).Pretyped)

theorem pretyped_resolveParameters (h : m.IsNumbered) : Pretyped m m m.resolveParameters.1 := by
  rw [resolveParameters_of_headings h rfl]
  refine ⟨Owners.Pretyped.ofPass _, ?_, rfl⟩
  dsimp only
  split
  · exact List.forall₂_same.2 fun _ _ => .refl _
  · exact Owners.Pretyped.ofPass _

namespace Pretyped

theorem untyped_eq (h : Pretyped m₀ m n) : n.untyped = m.untyped := by
  have hf : n.functions.map (Owners.functions m₀).untyped = m.functions.map (Owners.functions m₀).untyped :=
    Owners.map_untyped_of_pretyped h.functions
  have hm : n.methods.map (Owners.methods m₀).untyped = m.methods.map (Owners.methods m₀).untyped :=
    Owners.map_untyped_of_pretyped h.methods
  have hn : n.untyped =
      { m with
        functions := n.functions.map (Owners.functions m₀).untyped
        methods := n.methods.map (Owners.methods m₀).untyped } := by
    rw [h.rest]
    rfl
  rw [hn, hf, hm]
  rfl

theorem parameters (h : Pretyped m₀ m n) :
    List.Forall₂ (TypedBy m₀.typeRule) m.parameters n.parameters :=
  List.rel_append (List.rel_flatMap h.functions fun _ _ hfg => hfg.parameters)
    (List.rel_flatMap h.methods fun _ _ hfg => hfg.parameters)

/-- With more types declared under new names, the next pass makes up for the one that came before. -/
theorem resolveParameters_eq (h : Pretyped m₀ m n) (hm : m.IsNumbered) (hn : n.IsNumbered)
    (hx : ∀ name type, m₀.typeRule name = some type → m.typeRule name = some type) :
    n.resolveParameters.2 = m.resolveParameters.2 ∧
      (m.resolveParameters.2 = none → n.resolveParameters.1 = m.resolveParameters.1) := by
  have hrule : n.typeRule = m.typeRule := by rw [h.rest]; rfl
  have hpm := resolveParameters_parameters hm
  have hpn := resolveParameters_parameters hn
  rw [hrule] at hpn
  have hstep : List.Forall₂ (fun p q => typeStep m.typeRule q = typeStep m.typeRule p)
      m.parameters n.parameters := by
    refine h.parameters.imp ?_
    rintro p q (rfl | rfl)
    · rfl
    · exact typeStep_typeStep (fun _ _ => typeRule_ne_unresolved) hx p
  obtain ⟨herror, hparameters⟩ := mapUntil_of_forall₂ hstep
  rw [← hpm, ← hpn] at herror hparameters
  refine ⟨herror, fun hnone => eq_of_untyped ?_ (hparameters hnone)⟩
  rw [untyped_resolveParameters hn, untyped_resolveParameters hm, h.untyped_eq]

end Pretyped

end Model

namespace Edit

variable {m₀ m n : Model}

def AddsParameters : Edit → Prop
  | addFunction .. | addMethod .. | appendParameter .. => True
  | _ => False

theorem pretyped_after (h : Model.Pretyped m₀ m n) (hm : m.IsNumbered) (hn : n.IsNumbered)
    {additions : List (Tree × Edit)} (ha : ∀ x ∈ additions, x.2.IsAddition) :
    Model.Pretyped m₀ (after m additions) (after n additions) :=
  alike_after (outlasts_forall₂ .refl fun h p => h.extended p) (outlasts_forall₂ .refl fun h p => h.extended p)
    h hm hn ha

theorem owners_withImported (r : Except Error Imported) :
    (withImported m r).1.functions = m.functions ∧ (withImported m r).1.methods = m.methods := by
  cases r <;> exact ⟨rfl, rfl⟩

theorem owners_apply (t : Tree) {e : Edit} (he : e.IsAddition) (hp : ¬ e.AddsParameters) :
    (e.apply t m).1.functions = m.functions ∧ (e.apply t m).1.methods = m.methods := by
  cases e with
  | setParameterType | run => exact he.elim
  | addFunction | addMethod | appendParameter => exact (hp trivial).elim
  | loadSkillset | loadSkillsetFile => exact owners_withImported _
  | _ => exact ⟨rfl, rfl⟩

theorem parameters_after {additions : List (Tree × Edit)} (ha : ∀ x ∈ additions, x.2.IsAddition)
    (hp : ∀ x ∈ additions, ¬ x.2.AddsParameters) : (after m additions).parameters = m.parameters := by
  induction additions generalizing m with
  | nil => rfl
  | cons x additions ih =>
      obtain ⟨hx, ha⟩ := List.forall_mem_cons.1 ha
      obtain ⟨hxp, hp⟩ := List.forall_mem_cons.1 hp
      obtain ⟨hfunctions, hmethods⟩ := owners_apply (m := m) x.1 hx hxp
      have hparameters := ih (m := (x.2.apply x.1 m).1) ha hp
      rw [Model.parameters, Model.parameters, hfunctions, hmethods] at hparameters
      exact hparameters

end Edit

namespace Model

variable {m n : Model}

theorem resolveParameters_error (h : m.IsNumbered) {e : Error} (he : m.resolveParameters.2 = some e) :
    ∃ p ∈ m.parameters, ∃ name position,
      p.type = .unresolved name position ∧ e = .unresolved s!"type '{name}'" position := by
  rw [(Prod.ext_iff.1 (resolveParameters_parameters h)).2] at he
  obtain ⟨p, hp, he⟩ := exists_of_mapUntil he
  exact ⟨p, hp, eq_unresolved_of_typeStep he⟩

theorem parameters_resolveParameters_after (hm : m.IsNumbered) {additions : List (Tree × Edit)}
    (ha : ∀ x ∈ additions, x.2.IsAddition) (hp : ∀ x ∈ additions, ¬ x.2.AddsParameters)
    (hx : ∀ name type, m.typeRule name = some type → (Edit.after m additions).typeRule name = some type)
    (hrule : (Edit.after m.resolveParameters.1 additions).typeRule = (Edit.after m additions).typeRule) :
    (Edit.after m.resolveParameters.1 additions).resolveParameters.1.parameters =
      (Edit.after m additions).resolveParameters.1.parameters := by
  have hma := (Edit.grows_after hm additions).1
  have hna := (Edit.grows_after (isNumbered_resolveParameters hm) additions).1
  have hpm := resolveParameters_parameters hma
  have hpn := resolveParameters_parameters hna
  rw [Edit.parameters_after ha hp] at hpm
  have hps : m.resolveParameters.1.parameters = (mapUntil (typeStep m.typeRule) m.parameters).1 :=
    (Prod.ext_iff.1 (resolveParameters_parameters hm)).1
  rw [Edit.parameters_after ha hp, hrule, hps,
    mapUntil_resume (typeStep_typeStep (fun _ _ => typeRule_ne_unresolved) hx)
      fun _ => typeStep_of_extends hx, ← hpm] at hpn
  exact congrArg Prod.fst hpn

end Model

/-- Type resolution that has been run can be run again after additions as if it had never run, as long as
no name that was declared as a type or skillset then is declared anew: both ways end in the same way, and
with the same model if they succeed or if the additions bring in no parameters. -/
theorem Reachable.retype_after_additions {m : Model} (h : Reachable m) {additions : List (Tree × Edit)}
    (ha : ∀ x ∈ additions, x.2.IsAddition) (hnew : m.NewTypeNames (Edit.after m additions)) :
    let r := (Edit.after m additions).resolveParameters
    let r' := (Edit.after m.resolveParameters.1 additions).resolveParameters
    r'.2 = r.2 ∧
      (∀ e, r.2 = some e → ∃ p ∈ (Edit.after m additions).parameters, ∃ name position,
        p.type = .unresolved name position ∧ e = .unresolved s!"type '{name}'" position) ∧
      (r.2 = none ∨ (∀ x ∈ additions, ¬ x.2.AddsParameters) → r'.1 = r.1) := by
  intro r r'
  have hm : m.IsNumbered := h.isNumbered
  have hn : m.resolveParameters.1.IsNumbered := Model.isNumbered_resolveParameters hm
  obtain ⟨hma, hgrows⟩ := Edit.grows_after hm additions
  obtain ⟨hna, -⟩ := Edit.grows_after hn additions
  have hpre := Edit.pretyped_after (Model.pretyped_resolveParameters hm) hm hn ha
  have hx : ∀ name type, m.typeRule name = some type → (Edit.after m additions).typeRule name = some type :=
    fun _ _ => hgrows.typeRule_eq hnew
  obtain ⟨herror, hmodel⟩ := hpre.resolveParameters_eq hma hna hx
  refine ⟨herror, fun e => Model.resolveParameters_error hma, ?_⟩
  · rintro (hnone | hp)
    · exact hmodel hnone
    · refine Model.eq_of_untyped ?_ (Model.parameters_resolveParameters_after hm ha hp hx ?_)
      · rw [Model.untyped_resolveParameters hna, Model.untyped_resolveParameters hma, hpre.untyped_eq]
      · rw [hpre.rest]
        rfl

theorem Reachable.retype_after_additions_go :
    let t : Tree := ⟨.root, []⟩
    let m := (Model.empty.addType "pose" none).addFunction "go"
      [⟨"to", .unresolved "pose" none, none⟩, ⟨"how", .unresolved "manner" none, none⟩] [] none
    let additions : List (Tree × Edit) := [(t, .addSkillset "manner" [] none),
      (t, .addMethod "halt" [⟨"why", .unresolved "cause" none, none⟩] none),
      (t, .appendParameter (.id .function ⟨0⟩) ⟨"from", .unresolved "pose" none, none⟩)]
    let r := (Edit.after m.resolveParameters.1 additions).resolveParameters
    let s :=
      (Edit.after m.resolveParameters.1 (additions ++ [(t, .addImportedType "cause" none)])).resolveParameters
    Reachable m ∧ m.resolveParameters.2 = some (.unresolved "type 'manner'" none) ∧
      r.2 = some (.unresolved "type 'cause'" none) ∧ s.2 = none ∧
      s.1.parameters.map (·.type) = [.declared ⟨0⟩, .skillset ⟨0⟩, .declared ⟨0⟩, .imported ⟨0⟩] := by
  intro t m additions r s
  have hempty : Reachable .empty := .empty
  have hm : Reachable m := hempty.applyAll t [.addType "pose" none,
    .addFunction "go" [⟨"to", .unresolved "pose" none, none⟩, ⟨"how", .unresolved "manner" none, none⟩] [] none]
    (by decide)
  have ha : ∀ x ∈ additions, x.2.IsAddition := by simp [additions, Edit.IsAddition]
  have hb : ∀ x ∈ additions ++ [(t, .addImportedType "cause" none)], x.2.IsAddition := by
    simp [additions, Edit.IsAddition]
  have hnew : m.NewTypeNames (Edit.after m additions) := by constructor <;> decide
  have hnew' : m.NewTypeNames (Edit.after m (additions ++ [(t, .addImportedType "cause" none)])) := by
    constructor <;> decide
  obtain ⟨hr, -, -⟩ := hm.retype_after_additions ha hnew
  obtain ⟨hs, -, hsm⟩ := hm.retype_after_additions hb hnew'
  have hnone : s.2 = none := hs.trans (by decide)
  refine ⟨hm, by decide, hr.trans (by decide), hnone, ?_⟩
  rw [hsm (.inl (by decide))]
  decide

end RobotLang
