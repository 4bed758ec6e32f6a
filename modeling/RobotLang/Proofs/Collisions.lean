import Mathlib.Data.List.Nodup
import RobotLang.Stage

namespace RobotLang

def Collide (names : List String) (i j : Nat) : Prop :=
  i < j ∧ j < names.length ∧ names[i]? = names[j]?

/-- The pair of places of equal names that comes before all others, first places counting first. -/
structure FirstPair (names : List String) (i j : Nat) : Prop where
  collide : Collide names i j
  least : ∀ k l, Collide names k l → i < k ∨ i = k ∧ j ≤ l

theorem not_collide_iff_nodup {names : List String} : (∀ i j, ¬ Collide names i j) ↔ names.Nodup := by
  rw [List.nodup_iff_getElem?_ne_getElem?]
  exact forall₂_congr fun i j => ⟨fun h hij hj he => h ⟨hij, hj, he⟩, fun h hc => h hc.1 hc.2.1 hc.2.2⟩

theorem FirstPair.unique {names : List String} {i j k l : Nat} (h : FirstPair names i j)
    (h' : FirstPair names k l) : (i, j) = (k, l) := by
  have hle := h.least k l h'.collide
  have hge := h'.least i j h.collide
  rw [Prod.mk.injEq]
  omega

theorem collide_append_singleton {before : List String} {name : String} {k l : Nat} :
    Collide (before ++ [name]) k l ↔
      Collide before k l ∨ l = before.length ∧ before[k]? = some name := by
  constructor
  · rintro ⟨hkl, hl, he⟩
    rw [List.length_append, List.length_singleton] at hl
    rw [List.getElem?_append_left (by omega)] at he
    by_cases hlast : l = before.length
    · subst hlast
      exact .inr ⟨rfl, by rw [he, List.getElem?_concat_length]⟩
    · rw [List.getElem?_append_left (by omega)] at he
      exact .inl ⟨hkl, by omega, he⟩
  · rintro (⟨hkl, hl, he⟩ | ⟨rfl, he⟩)
    · refine ⟨hkl, by rw [List.length_append]; omega, ?_⟩
      rw [List.getElem?_append_left (by omega), List.getElem?_append_left hl, he]
    · have hk : k < before.length := (List.getElem?_eq_some_iff.1 he).1
      exact ⟨hk, by simp, by rw [List.getElem?_append_left hk, List.getElem?_concat_length, he]⟩

theorem FirstPair.append_singleton {before : List String} {name : String} {i j : Nat}
    (h : FirstPair before i j) (hname : ∀ k, before[k]? = some name → i ≤ k) :
    FirstPair (before ++ [name]) i j := by
  refine ⟨collide_append_singleton.2 (.inl h.collide), fun k l hc => ?_⟩
  rcases collide_append_singleton.1 hc with hc | ⟨rfl, hk⟩
  · exact h.least k l hc
  · have hi := hname k hk
    have hj := h.collide.2.1
    omega

/-- The first place of the last name and its last place, if earlier names make only pairs whose first
places are later. -/
theorem firstPair_of_last {before : List String} {name : String} {i : Nat}
    (hi : before[i]? = some name) (hname : ∀ k, before[k]? = some name → i ≤ k)
    (hlater : ∀ k l, Collide before k l → i < k) : FirstPair (before ++ [name]) i before.length := by
  refine ⟨collide_append_singleton.2 (.inr ⟨rfl, hi⟩), fun k l hc => ?_⟩
  rcases collide_append_singleton.1 hc with hc | ⟨rfl, hk⟩
  · exact .inl (hlater k l hc)
  · have hle := hname k hk
    omega

namespace Sighting

/-- What is known when the names of `before` have been met: the place where each of them stands first,
and the pair that is to be reported if no more names come. -/
structure Covers (s : Sighting) (before : List String) : Prop where
  seen : ∀ name, s.seen.lookup name = before.findIdx? (· == name)
  distinct : s.best = none → ∀ i j, ¬ Collide before i j
  first : ∀ i j, s.best = some (i, j) → FirstPair before i j

theorem covers_nil : Covers ⟨[], none⟩ [] where
  seen := fun _ => rfl
  distinct := fun _ _ j h => Nat.not_lt_zero j h.2.1
  first := nofun

namespace Covers

variable {s : Sighting} {before : List String} {name : String} {i : Nat}

theorem first_place (h : s.Covers before) (hs : s.seen.lookup name = some i) :
    before[i]? = some name ∧ ∀ k : Nat, before[k]? = some name → i ≤ k := by
  rw [h.seen, List.findIdx?_eq_some_iff_getElem] at hs
  obtain ⟨hi, hn, hb⟩ := hs
  refine ⟨by rw [List.getElem?_eq_getElem hi, eq_of_beq hn], fun k hk => Nat.le_of_not_lt fun hlt => ?_⟩
  obtain ⟨hk', rfl⟩ := List.getElem?_eq_some_iff.1 hk
  exact hb k hlt (beq_self_eq_true _)

theorem not_mem (h : s.Covers before) (hs : s.seen.lookup name = none) : name ∉ before := by
  rw [h.seen, List.findIdx?_eq_none_iff] at hs
  exact fun hn => Bool.false_ne_true ((hs name hn).symm.trans (beq_self_eq_true name))

theorem seen_append (h : s.Covers before) (n : String) :
    (before ++ [name]).findIdx? (· == n) =
      (s.seen.lookup n).or (if name == n then some before.length else none) := by
  rw [List.findIdx?_append, h.seen, List.findIdx?_cons]
  cases name == n <;> simp

theorem meet_new (h : s.Covers before) (hs : s.seen.lookup name = none) :
    Covers { s with seen := (name, before.length) :: s.seen } (before ++ [name]) := by
  have hnew : ∀ k, before[k]? ≠ some name := fun k hk => h.not_mem hs (List.mem_of_getElem? hk)
  refine ⟨fun n => ?_, fun hb k l hc => ?_, fun k l hb => ?_⟩
  · rw [h.seen_append, List.lookup_cons]
    by_cases hn : n = name
    · subst hn
      simp [hs]
    · have hne : (n == name) = false := by simpa using hn
      have hne' : (name == n) = false := by simpa using Ne.symm hn
      simp [hne, hne']
  · rcases collide_append_singleton.1 hc with hc | ⟨-, hk⟩
    · exact h.distinct hb k l hc
    · exact hnew k hk
  · exact (h.first k l hb).append_singleton fun k' hk => absurd hk (hnew k')

theorem meet (h : s.Covers before) (name : String) :
    (s.meet name before.length).Covers (before ++ [name]) := by
  rw [Sighting.meet]
  cases hs : s.seen.lookup name with
  | none => exact h.meet_new hs
  | some i =>
      obtain ⟨hi, hfirst⟩ := h.first_place hs
      have hseen : ∀ n, s.seen.lookup n = (before ++ [name]).findIdx? (· == n) := by
        intro n
        rw [h.seen_append]
        by_cases hn : name = n
        · subst hn
          rw [hs, Option.some_or]
        · rw [beq_eq_false_iff_ne.2 hn, if_neg Bool.false_ne_true, Option.or_none]
      have hlast (hlater : ∀ k l, Collide before k l → i < k) :
          Covers { s with best := some (i, before.length) } (before ++ [name]) := by
        refine ⟨hseen, nofun, fun k l he => ?_⟩
        obtain ⟨rfl, rfl⟩ := Prod.mk.inj (Option.some.inj he)
        exact firstPair_of_last hi hfirst hlater
      cases hb : s.best with
      | none => exact hlast fun k l hc => absurd hc (h.distinct hb k l)
      | some best =>
          have hf := h.first best.1 best.2 hb
          -- A pair of this name takes over only if its first place is earlier than that of the best pair.
          by_cases hlt : i < best.1
          · simp only [hlt, if_true]
            refine hlast fun k l hc => ?_
            have := hf.least k l hc
            omega
          · simp only [hlt, if_false]
            refine ⟨hseen, fun hn => ?_, fun k l he => ?_⟩
            · rw [hb] at hn
              cases hn
            · obtain rfl := Option.some.inj (hb.symm.trans he)
              exact hf.append_singleton fun k' hk => Nat.le_trans (Nat.not_lt.1 hlt) (hfirst k' hk)

theorem meetFrom (h : s.Covers before) (names : List String) :
    (s.meetFrom before.length names).Covers (before ++ names) := by
  induction names generalizing s before with
  | nil => rwa [List.append_nil]
  | cons name names ih =>
      have hn := ih (h.meet name)
      rwa [List.length_append, List.length_singleton, List.append_assoc, List.singleton_append] at hn

end Covers

theorem covers_names (names : List String) : (meetFrom ⟨[], none⟩ 0 names).Covers names :=
  covers_nil.meetFrom names

end Sighting

theorem firstCollision_eq_none_iff {names : List String} : firstCollision names = none ↔ names.Nodup := by
  have hc := Sighting.covers_names names
  rw [← not_collide_iff_nodup]
  refine ⟨hc.distinct, fun h => ?_⟩
  cases hf : firstCollision names with
  | none => rfl
  | some b => exact absurd (hc.first b.1 b.2 hf).collide (h b.1 b.2)

theorem firstCollision_eq_some_iff {names : List String} {i j : Nat} :
    firstCollision names = some (i, j) ↔ FirstPair names i j := by
  have hc := Sighting.covers_names names
  refine ⟨hc.first i j, fun h => ?_⟩
  cases hf : firstCollision names with
  | none => exact absurd h.collide (hc.distinct hf i j)
  | some b => rw [h.unique (hc.first b.1 b.2 hf)]

example : firstCollision ["a", "b", "b", "a", "a"] = some (0, 3) := by decide

/-! ### Namespaces -/

/-- The first of some checks, in their order, that finds anything finds the error. -/
inductive FirstFound : List (Error → Prop) → Error → Prop
  | here {check : Error → Prop} {checks : List (Error → Prop)} {e : Error} (h : check e) :
      FirstFound (check :: checks) e
  | later {check : Error → Prop} {checks : List (Error → Prop)} {e : Error} (hn : ∀ e, ¬ check e)
      (h : FirstFound checks e) : FirstFound (check :: checks) e

theorem FirstFound.exists_mem {checks : List (Error → Prop)} {e : Error} (h : FirstFound checks e) :
    ∃ check ∈ checks, check e := by
  induction h with
  | here h => exact ⟨_, List.mem_cons_self, h⟩
  | later _ _ ih =>
      obtain ⟨check, hmem, he⟩ := ih
      exact ⟨check, List.mem_cons_of_mem _ hmem, he⟩

theorem firstFound_singleton {check : Error → Prop} {e : Error} : FirstFound [check] e ↔ check e := by
  refine ⟨fun h => ?_, .here⟩
  cases h with
  | here h => exact h
  | later _ h => cases h

theorem firstFound_append {checks checks' : List (Error → Prop)} {e : Error} :
    FirstFound (checks ++ checks') e ↔
      FirstFound checks e ∨ (∀ e, ¬ FirstFound checks e) ∧ FirstFound checks' e := by
  induction checks with
  | nil =>
      refine ⟨fun h => .inr ⟨nofun, h⟩, fun h => ?_⟩
      rcases h with h | ⟨-, h⟩
      · cases h
      · exact h
  | cons check checks ih =>
      constructor
      · intro h
        cases h with
        | here h => exact .inl (.here h)
        | later hn h =>
            rcases ih.1 h with h | ⟨hnone, h⟩
            · exact .inl (.later hn h)
            · refine .inr ⟨fun e he => ?_, h⟩
              cases he with
              | here he => exact hn e he
              | later _ he => exact hnone e he
      · rintro (h | ⟨hnone, h⟩)
        · cases h with
          | here h => exact .here h
          | later hn h => exact .later hn (ih.2 (.inl h))
        · exact .later (fun e he => hnone e (.here he))
            (ih.2 (.inr ⟨fun e he => hnone e (.later (fun e he => hnone e (.here he)) he), h⟩))

theorem orElse_eq_some_iff {checks checks' : List (Error → Prop)} {o o' : Option Error}
    (h : ∀ e, o = some e ↔ FirstFound checks e) (h' : ∀ e, o' = some e ↔ FirstFound checks' e) (e : Error) :
    (o <|> o') = some e ↔ FirstFound (checks ++ checks') e := by
  rw [firstFound_append, ← h, ← h']
  cases o with
  | some a => simp [← h]
  | none => simp [← h]

def Repeats {kind : Kind} (label : String) (entries : List (Entity kind)) (e : Error) : Prop :=
  ∃ i j a b, FirstPair (entries.map (·.name)) i j ∧ entries[i]? = some a ∧ entries[j]? = some b ∧
    e = .duplicate (some label) a.name a.position b.position

section Entities

variable {kind : Kind} {label : String} {entries : List (Entity kind)}

theorem map_fst_labels (entries : List (Entity kind)) :
    (Model.labels entries).map (·.1) = entries.map (·.name) := by
  rw [Model.labels, List.map_map]
  rfl

theorem entityCollision_eq_some_iff {e : Error} :
    Model.entityCollision label (Model.labels entries) = some e ↔ Repeats label entries e := by
  rw [Model.entityCollision, map_fst_labels]
  constructor
  · intro h
    split at h
    · cases h
    next i j hf =>
      have hp := firstCollision_eq_some_iff.1 hf
      simp only [Model.labels, List.getElem?_map] at h
      split at h
      next a b ha hb =>
        obtain ⟨x, hx, rfl⟩ := Option.map_eq_some_iff.1 ha
        obtain ⟨y, hy, rfl⟩ := Option.map_eq_some_iff.1 hb
        exact ⟨i, j, x, y, hp, hx, hy, (Option.some.inj h).symm⟩
      · cases h
  · rintro ⟨i, j, a, b, hp, ha, hb, rfl⟩
    simp only [firstCollision_eq_some_iff.2 hp, Model.labels, List.getElem?_map, ha, hb, Option.map_some]

theorem entityCollision_eq_none_iff :
    Model.entityCollision label (Model.labels entries) = none ↔ (entries.map (·.name)).Nodup := by
  rw [← firstCollision_eq_none_iff]
  constructor
  · intro h
    cases hf : firstCollision (entries.map (·.name)) with
    | none => rfl
    | some b =>
        have hp := firstCollision_eq_some_iff.1 hf
        have hj : b.2 < entries.length := by simpa using hp.collide.2.1
        have hi : b.1 < entries.length := Nat.lt_trans hp.collide.1 hj
        have hr : Repeats label entries _ :=
          ⟨b.1, b.2, entries[b.1], entries[b.2], hp, List.getElem?_eq_getElem hi, List.getElem?_eq_getElem hj, rfl⟩
        rw [entityCollision_eq_some_iff.2 hr] at h
        cases h
  · intro h
    rw [Model.entityCollision, map_fst_labels, h]

end Entities

namespace Model

variable (m : Model)

def RepeatsInclude (e : Error) : Prop :=
  ∃ i j name, FirstPair m.includes i j ∧ m.includes[i]? = some name ∧ e = .repeatedInclude name

def Imports (name : String) : Prop := ∃ t ∈ m.imported.types, t.name = name

def Shadows (e : Error) : Prop :=
  ∃ before t after, m.types = before ++ t :: after ∧ (∀ u ∈ before, ¬ m.Imports u.name) ∧
    m.Imports t.name ∧ e = .importedName t.name

def nameChecks : List (Error → Prop) :=
  [m.RepeatsInclude, Repeats "robot" m.robots, Repeats "type" m.types, m.Shadows,
    Repeats "function" (m.functions.map (·.toEntity)), Repeats "method" (m.methods.map (·.toEntity))]

structure NamesAreDistinct : Prop where
  includes : m.includes.Nodup
  robots : (m.robots.map (·.name)).Nodup
  types : (m.types.map (·.name)).Nodup
  unimported : ∀ t ∈ m.types, ¬ m.Imports t.name
  functions : (m.functions.map (·.name)).Nodup
  methods : (m.methods.map (·.name)).Nodup

variable {m} {e : Error}

theorem includeCollision_eq_some_iff : m.includeCollision = some e ↔ m.RepeatsInclude e := by
  rw [includeCollision]
  constructor
  · intro h
    split at h
    · cases h
    next i j hf =>
      obtain ⟨name, hn, rfl⟩ := Option.map_eq_some_iff.1 h
      exact ⟨i, j, name, firstCollision_eq_some_iff.1 hf, hn, rfl⟩
  · rintro ⟨i, j, name, hp, hn, rfl⟩
    simp only [firstCollision_eq_some_iff.2 hp, hn, Option.map_some]

theorem includeCollision_eq_none_iff : m.includeCollision = none ↔ m.includes.Nodup := by
  rw [← firstCollision_eq_none_iff, includeCollision]
  constructor
  · intro h
    cases hf : firstCollision m.includes with
    | none => rfl
    | some b =>
        have hc := (firstCollision_eq_some_iff.1 hf).collide
        have hi : b.1 < m.includes.length := Nat.lt_trans hc.1 hc.2.1
        simp [hf, List.getElem?_eq_getElem hi] at h
  · intro h
    rw [h]

theorem imports_iff {name : String} : (m.imported.types.any (·.name == name)) = true ↔ m.Imports name := by
  simp [Imports]

theorem map_find?_imported_eq_some_iff :
    ((m.types.find? fun t => m.imported.types.any (·.name == t.name)).map fun t => .importedName t.name) =
      some e ↔ m.Shadows e := by
  rw [Option.map_eq_some_iff]
  constructor
  · rintro ⟨t, ht, rfl⟩
    obtain ⟨hi, before, after, hs, hb⟩ := List.find?_eq_some_iff_append.1 ht
    refine ⟨before, t, after, hs, fun u hu himp => ?_, imports_iff.1 hi, rfl⟩
    have hn := hb u hu
    rw [imports_iff.2 himp] at hn
    cases hn
  · rintro ⟨before, t, after, hs, hb, hi, rfl⟩
    refine ⟨t, List.find?_eq_some_iff_append.2 ⟨imports_iff.2 hi, before, after, hs, fun u hu => ?_⟩, rfl⟩
    rw [Bool.not_eq_true', ← Bool.not_eq_true, imports_iff]
    exact hb u hu

theorem typeCollision_eq_some_iff :
    m.typeCollision = some e ↔ FirstFound ([Repeats "type" m.types] ++ [m.Shadows]) e :=
  orElse_eq_some_iff (fun _ => entityCollision_eq_some_iff.trans firstFound_singleton.symm)
    (fun _ => map_find?_imported_eq_some_iff.trans firstFound_singleton.symm) e

theorem duplicateError_eq_some_iff : m.duplicateError = some e ↔ FirstFound m.nameChecks e :=
  orElse_eq_some_iff (fun _ => includeCollision_eq_some_iff.trans firstFound_singleton.symm)
    (orElse_eq_some_iff (fun _ => entityCollision_eq_some_iff.trans firstFound_singleton.symm)
      (orElse_eq_some_iff (fun _ => typeCollision_eq_some_iff)
        (orElse_eq_some_iff (fun _ => entityCollision_eq_some_iff.trans firstFound_singleton.symm)
          fun _ => entityCollision_eq_some_iff.trans firstFound_singleton.symm))) e

theorem orElse_eq_none_iff {o o' : Option Error} : (o <|> o') = none ↔ o = none ∧ o' = none := by
  cases o <;> simp

theorem duplicateError_eq_none_iff : m.duplicateError = none ↔ m.NamesAreDistinct := by
  have hf : (m.functions.map (·.toEntity)).map (·.name) = m.functions.map (·.name) := List.map_map
  have hm : (m.methods.map (·.toEntity)).map (·.name) = m.methods.map (·.name) := List.map_map
  have ht : m.typeCollision = none ↔ (m.types.map (·.name)).Nodup ∧ ∀ t ∈ m.types, ¬ m.Imports t.name := by
    refine orElse_eq_none_iff.trans (and_congr entityCollision_eq_none_iff ?_)
    rw [Option.map_eq_none_iff, List.find?_eq_none]
    exact forall₂_congr fun t _ => not_congr imports_iff
  rw [duplicateError, orElse_eq_none_iff, orElse_eq_none_iff, orElse_eq_none_iff, orElse_eq_none_iff,
    includeCollision_eq_none_iff, ht, entityCollision_eq_none_iff, entityCollision_eq_none_iff,
    entityCollision_eq_none_iff, hf, hm]
  exact ⟨fun ⟨hi, hr, ⟨ht, hu⟩, hf, hm⟩ => ⟨hi, hr, ht, hu, hf, hm⟩,
    fun h => ⟨h.includes, h.robots, ⟨h.types, h.unimported⟩, h.functions, h.methods⟩⟩

end Model

/-- The check for repeated names passes exactly if the names of every kind are distinct and no declared
type has an imported name. Otherwise it reports the first pair of places in the first kind, in the order
of the checks, that has one; where there are positions, it is reported at the second of them. -/
theorem Stage.duplicates_reports_first_pair (m : Model) :
    (Stage.duplicates.run m = (m, none) ↔ m.NamesAreDistinct) ∧
    (∀ e, Stage.duplicates.run m = (m, some e) ↔ FirstFound m.nameChecks e) ∧
    ∀ label name first second, Stage.duplicates.run m = (m, some (.duplicate label name first second)) →
      (Error.duplicate label name first second).position = second := by
  have hr : ∀ o, Stage.duplicates.run m = (m, o) ↔ m.duplicateError = o := fun o =>
    ⟨fun h => (Prod.mk.inj h).2, fun h => Prod.ext rfl h⟩
  refine ⟨(hr none).trans Model.duplicateError_eq_none_iff, fun e => ?_, fun _ _ _ _ _ => rfl⟩
  exact (hr (some e)).trans Model.duplicateError_eq_some_iff

theorem Stage.duplicates_reports_first_pair_leg :
    let place (line : Int) : Option Position := some ⟨none, line, 1⟩
    let robots := (((Model.empty.addRobot "leg" (place 1)).addRobot "arm" (place 2)).addRobot "arm" (place 3)).addRobot
      "leg" (place 4)
    let m := (robots.addFunction "go" [] [] (place 5)).addFunction "go" [] [] (place 6)
    let e : Error := .duplicate (some "robot") "leg" (place 1) (place 4)
    ¬ m.NamesAreDistinct ∧ Stage.duplicates.run m = (m, some e) ∧ e.position = place 4 := by
  intro place robots m e
  obtain ⟨hdistinct, hfirst, hposition⟩ := Stage.duplicates_reports_first_pair m
  have hpair : FirstPair (m.robots.map (·.name)) 0 3 := firstCollision_eq_some_iff.1 (by decide)
  have hrun : Stage.duplicates.run m = (m, some e) := by
    refine (hfirst e).2 (.later ?_ (.here ⟨0, 3, _, _, hpair, rfl, rfl, rfl⟩))
    rintro e ⟨i, j, name, h, -⟩
    exact Nat.not_lt_zero j h.collide.2.1
  refine ⟨fun h => ?_, hrun, hposition _ _ _ _ hrun⟩
  exact absurd (Prod.mk.inj (hrun.symm.trans (hdistinct.2 h))).2 (Option.some_ne_none e)

end RobotLang
