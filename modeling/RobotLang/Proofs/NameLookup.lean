import RobotLang.Resolve.ParamTypes
import RobotLang.Resolve.Scope

namespace RobotLang

variable {kind : Kind}

def lastNamed (name : String) (entries : List (Entity kind)) : Option (Entity kind) :=
  entries.findRev? fun e => e.name = name

theorem lastNamed_cons (name : String) (e : Entity kind) (es : List (Entity kind)) :
    lastNamed name (e :: es) = (lastNamed name es).or (if e.name = name then some e else none) := by
  simp only [lastNamed, List.findRev?_eq_find?_reverse, List.reverse_cons, List.find?_append,
    List.find?_singleton, decide_eq_true_eq]

/-- The entry has the name, and no later one has it. -/
def IsLastNamed (name : String) (entries : List (Entity kind)) (e : Entity kind) : Prop :=
  e.name = name ∧ ∃ before after, entries = before ++ e :: after ∧ ∀ x ∈ after, x.name ≠ name

theorem lastNamed_eq_some_iff {name : String} {entries : List (Entity kind)} {e : Entity kind} :
    lastNamed name entries = some e ↔ IsLastNamed name entries e := by
  rw [lastNamed, List.findRev?_eq_find?_reverse, List.find?_eq_some_iff_append, IsLastNamed,
    decide_eq_true_eq]
  refine and_congr_right fun _ => ⟨?_, ?_⟩
  · rintro ⟨before, after, hs, hb⟩
    refine ⟨after.reverse, before.reverse, ?_, ?_⟩
    · rw [← List.reverse_reverse entries, hs]
      simp
    · intro x hx
      simpa using hb x (by simpa using hx)
  · rintro ⟨before, after, rfl, ha⟩
    refine ⟨after.reverse, before.reverse, by simp, ?_⟩
    intro x hx
    simpa using ha x (by simpa using hx)

theorem mem_of_lastNamed {name : String} {entries : List (Entity kind)} {e : Entity kind}
    (h : lastNamed name entries = some e) : e ∈ entries ∧ e.name = name := by
  obtain ⟨hn, before, after, rfl, -⟩ := lastNamed_eq_some_iff.1 h
  exact ⟨by simp, hn⟩

theorem lastNamed_eq_none_iff {name : String} {entries : List (Entity kind)} :
    lastNamed name entries = none ↔ ∀ e ∈ entries, e.name ≠ name := by
  simp [lastNamed]

theorem isSome_lastNamed_iff {name : String} {entries : List (Entity kind)} :
    (lastNamed name entries).isSome ↔ ∃ e ∈ entries, e.name = name := by
  rw [← Option.ne_none_iff_isSome, ne_eq, lastNamed_eq_none_iff]
  simp

theorem scanFor_eq (name : String) (type : EntityId kind → ParamType) (entries : List (Entity kind))
    (found : Option ParamType) :
    Model.scanFor name type entries found =
      ((lastNamed name entries).map fun e => type e.id).or found := by
  induction entries generalizing found with
  | nil => rfl
  | cons e es ih =>
      simp only [Model.scanFor, List.foldl_cons] at ih ⊢
      rw [ih, lastNamed_cons]
      by_cases he : e.name = name <;> cases lastNamed name es <;> simp [he]

theorem lookup_entered (name : String) (target : EntityId kind → Target)
    (entries : List (Entity kind)) (scope : List (String × Target)) :
    (Scope.entered target entries scope).lookup name =
      ((lastNamed name entries).map fun e => target e.id).or (scope.lookup name) := by
  induction entries generalizing scope with
  | nil => rfl
  | cons e es ih =>
      simp only [Scope.entered, List.foldl_cons] at ih ⊢
      rw [ih, lastNamed_cons, List.lookup_cons]
      by_cases he : e.name = name
      · cases lastNamed name es <;> simp [he]
      · have hn : (name == e.name) = false := by simpa using Ne.symm he
        cases lastNamed name es <;> simp [he, hn]

namespace Model

variable (m : Model) (name : String)

/-- The type that a name stands for: a declared type, else an imported type, else a skillset. -/
def typeRule : Option ParamType :=
  ((lastNamed name m.types).map fun t => .declared t.id).or
    (((lastNamed name m.imported.types).map fun t => .imported t.id).or
      ((lastNamed name (m.imported.skillsets.map (·.toEntity))).map fun s => .skillset s.id))

def valueRule : Option Target :=
  ((lastNamed name (m.functions.map (·.toEntity))).map fun f => .function f.id).or
    ((m.typeRule name).map .type)

def calleeRule : Option Target :=
  ((lastNamed name (m.functions.map (·.toEntity))).map fun f => .function f.id).or
    ((lastNamed name (m.methods.map (·.toEntity))).map fun f => .method f.id)

def DeclaresType : Prop :=
  (∃ s ∈ m.imported.skillsets, s.name = name) ∨ (∃ t ∈ m.imported.types, t.name = name) ∨
    ∃ t ∈ m.types, t.name = name

theorem resolveTypeName_eq_typeRule : m.resolveTypeName name = m.typeRule name := by
  simp only [resolveTypeName, scanFor_eq, typeRule, Option.or_none]

theorem value?_ofModel : (Scope.ofModel m).value? name = m.valueRule name := by
  simp only [Scope.value?, Scope.ofModel, lookup_entered, valueRule, typeRule, List.lookup_nil,
    Option.or_none, Option.map_or, Option.map_map, Function.comp_def]

theorem callable?_ofModel : (Scope.ofModel m).callable? name = m.calleeRule name := by
  simp only [Scope.callable?, Scope.ofModel, lookup_entered, calleeRule, List.lookup_nil,
    Option.or_none]

theorem isSome_typeRule_iff : (m.typeRule name).isSome ↔ m.DeclaresType name := by
  simp only [typeRule, DeclaresType, Option.isSome_or, Option.isSome_map, Bool.or_eq_true,
    isSome_lastNamed_iff, List.mem_map]
  grind

instance : Decidable (m.DeclaresType name) := decidable_of_iff _ (m.isSome_typeRule_iff name)

theorem resolveTypeName_eq_none_iff : m.resolveTypeName name = none ↔ ¬ m.DeclaresType name := by
  rw [resolveTypeName_eq_typeRule, ← isSome_typeRule_iff, Option.not_isSome_iff_eq_none]

theorem value?_eq_none_iff :
    (Scope.ofModel m).value? name = none ↔
      (∀ f ∈ m.functions, f.name ≠ name) ∧ ¬ m.DeclaresType name := by
  rw [value?_ofModel, valueRule, Option.or_eq_none_iff, Option.map_eq_none_iff, Option.map_eq_none_iff,
    lastNamed_eq_none_iff, ← resolveTypeName_eq_typeRule, resolveTypeName_eq_none_iff]
  simp

/-- A name stands for the last function of that name; without one it stands, as a value, for the
type that the scan for a type name finds, and as a callable for the last method of that name. -/
theorem lookups_agree :
    (∀ f, IsLastNamed name (m.functions.map (·.toEntity)) f →
      (Scope.ofModel m).value? name = some (.function f.id) ∧
        (Scope.ofModel m).callable? name = some (.function f.id)) ∧
    ((∀ f ∈ m.functions, f.name ≠ name) →
      (Scope.ofModel m).value? name = (m.resolveTypeName name).map .type ∧
        (∀ f, IsLastNamed name (m.methods.map (·.toEntity)) f →
          (Scope.ofModel m).callable? name = some (.method f.id)) ∧
        ((∀ f ∈ m.methods, f.name ≠ name) → (Scope.ofModel m).callable? name = none)) ∧
    ((Scope.ofModel m).value? name = none ↔
      (∀ f ∈ m.functions, f.name ≠ name) ∧ ¬ m.DeclaresType name) ∧
    (m.resolveTypeName name = none ↔ ¬ m.DeclaresType name) := by
  refine ⟨?_, ?_, m.value?_eq_none_iff name, m.resolveTypeName_eq_none_iff name⟩
  · intro f hf
    rw [value?_ofModel, callable?_ofModel, valueRule, calleeRule, lastNamed_eq_some_iff.2 hf]
    exact ⟨rfl, rfl⟩
  · intro hf
    have hn : lastNamed name (m.functions.map (·.toEntity)) = none := by
      rw [lastNamed_eq_none_iff]
      simpa using hf
    rw [value?_ofModel, callable?_ofModel, valueRule, calleeRule, hn, resolveTypeName_eq_typeRule]
    refine ⟨rfl, ?_, ?_⟩
    · intro f hf
      rw [lastNamed_eq_some_iff.2 hf]
      rfl
    · intro hd
      rw [lastNamed_eq_none_iff.2 (by simpa using hd)]
      rfl

theorem lookups_agree_pose :
    let m := (((((Model.empty.addFunction "go" [] [] none).addFunction "go" [] [] none).addMethod "halt" [] none).addMethod
      "halt" [] none).addMethod "go" [] none).addType "pose" none
    let n := { m with imported := m.imported.addSkillset "pose" [] none }
    let scope := Scope.ofModel n
    (scope.value? "go" = some (.function ⟨1⟩) ∧ scope.callable? "go" = some (.function ⟨1⟩)) ∧
      (scope.value? "pose" = some (.type (.declared ⟨0⟩)) ∧ scope.callable? "pose" = none) ∧
      scope.value? "halt" = none ∧ scope.callable? "halt" = some (.method ⟨1⟩) := by
  intro m n scope
  obtain ⟨hgo, -⟩ := n.lookups_agree "go"
  obtain ⟨-, hpose, -⟩ := n.lookups_agree "pose"
  obtain ⟨-, hhalt, hnone, -⟩ := n.lookups_agree "halt"
  obtain ⟨hvalue, -, hcallable⟩ := hpose (by decide)
  obtain ⟨-, hmethod, -⟩ := hhalt (by decide)
  refine ⟨hgo ⟨⟨1⟩, "go", none⟩ ⟨rfl, [⟨⟨0⟩, "go", none⟩], [], rfl, by simp⟩,
    ⟨hvalue.trans (by decide), hcallable (by decide)⟩, hnone.2 (by decide), ?_⟩
  exact hmethod ⟨⟨1⟩, "halt", none⟩ ⟨rfl, [⟨⟨0⟩, "halt", none⟩], [⟨⟨2⟩, "go", none⟩], rfl, by simp⟩

end Model

end RobotLang
