import RobotLang.Proofs.Collisions
import RobotLang.Proofs.Includes
import RobotLang.Proofs.Reachable

namespace RobotLang

open Files Grammar

section Distinct

variable {α : Type} [DecidableEq α]

theorem length_distinctFrom_le (seen as : List α) : (distinctFrom seen as).length ≤ as.length := by
  induction as generalizing seen with
  | nil => exact Nat.le_refl 0
  | cons a as ih =>
      rw [distinctFrom]
      split
      · exact Nat.le_succ_of_le (ih seen)
      · exact Nat.succ_le_succ (ih (a :: seen))

theorem length_distinctFrom_eq_iff {seen as : List α} :
    (distinctFrom seen as).length = as.length ↔ as.Nodup ∧ ∀ a ∈ as, a ∉ seen := by
  induction as generalizing seen with
  | nil => simp [distinctFrom]
  | cons a as ih =>
      rw [distinctFrom]
      by_cases ha : a ∈ seen
      · have hle := length_distinctFrom_le seen as
        rw [if_pos ha, List.length_cons]
        exact ⟨fun h => by omega, fun h => absurd ha (h.2 a List.mem_cons_self)⟩
      · have hseen : (∀ b ∈ as, b ∉ a :: seen) ↔ a ∉ as ∧ ∀ b ∈ as, b ∉ seen := by grind
        rw [if_neg ha, List.length_cons, List.length_cons, Nat.add_right_cancel_iff, ih, hseen,
          List.nodup_cons, List.forall_mem_cons]
        exact ⟨fun h => ⟨⟨h.2.1, h.1⟩, ha, h.2.2⟩, fun h => ⟨h.1.2, h.1.1, h.2.2⟩⟩

theorem length_distinct_lt_iff {as : List α} : (distinct as).length < as.length ↔ ¬ as.Nodup := by
  have heq : (distinct as).length = as.length ↔ as.Nodup := by
    rw [distinct, length_distinctFrom_eq_iff]
    exact and_iff_left fun _ _ => List.not_mem_nil
  rw [← heq, Nat.lt_iff_le_and_ne]
  exact and_iff_right (length_distinctFrom_le [] as)

end Distinct

namespace Files.Path

/-- Every piece of the text is a name, so that each of them leads down. -/
def IsPlain (text : String) : Prop := ∀ piece ∈ text.toList.splitOn '/', IsName piece

instance : DecidablePred IsName := fun _ => inferInstanceAs (Decidable (_ ∧ _ ∧ _))

instance : DecidablePred IsPlain := fun text =>
  inferInstanceAs (Decidable (∀ piece ∈ text.toList.splitOn '/', IsName piece))

/-- The texts are all relative, or they are all absolute, and nothing about them is to be normalised. -/
def PlainlySpelled (texts : List String) : Prop :=
  (∀ text ∈ texts, IsPlain text) ∨ ∀ text ∈ texts, ∃ rest, text = "/" ++ rest ∧ IsPlain rest

theorem foldl_step_plain {ps : List (List Char)} (h : ∀ piece ∈ ps, IsName piece) (above : List String) :
    ps.foldl step above = (ps.map String.ofList).reverse ++ above := by
  induction ps generalizing above with
  | nil => rfl
  | cons piece ps ih =>
      obtain ⟨hp, hps⟩ := List.forall_mem_cons.1 h
      rw [List.foldl_cons, step_of_isName hp, ih hps]
      simp

/-- A name that no file can have is not got rid of, since the way ends there. -/
theorem possiblePieces_of_nameable {ps : List (List Char)} {above : List String}
    (h : (⟨((possiblePieces ps).foldl step above).reverse⟩ : Path).isUnnameable = false) :
    possiblePieces ps = ps := by
  induction ps generalizing above with
  | nil => rfl
  | cons piece ps ih =>
      rw [possiblePieces] at h ⊢
      split at h
      next himpossible =>
        have hname : IsName piece := by
          refine ⟨?_, ?_, ?_⟩ <;> rintro rfl <;> revert himpossible <;> decide
        rw [List.foldl_cons, List.foldl_nil, step_of_isName hname] at h
        simp [isUnnameable, himpossible] at h
      next hpossible =>
        rw [if_neg hpossible, ih h]

theorem eq_of_splitOn {text text' : String} (h : text.toList.splitOn '/' = text'.toList.splitOn '/') :
    text = text' := by
  have hjoined := congrArg (List.intercalate ['/']) h
  rwa [List.intercalate_splitOn, List.intercalate_splitOn, String.toList_inj] at hjoined

theorem splitOn_slash (text : String) :
    ("/" ++ text).toList.splitOn '/' = [] :: text.toList.splitOn '/' := by
  rw [String.toList_append]
  exact List.splitOn_append_cons_self [] _

theorem isAbsolute_slash (text : String) : isAbsolute ("/" ++ text) = true := by
  rw [isAbsolute, String.toList_append]
  rfl

theorem isAbsolute_of_isPlain {text : String} (h : IsPlain text) : isAbsolute text = false := by
  cases hc : text.toList with
  | nil => simp [isAbsolute, hc]
  | cons c cs =>
      by_cases hslash : c = '/'
      · rw [IsPlain, hc, List.splitOn_cons_eq_if_modifyHead, if_pos (by simpa using hslash)] at h
        exact absurd rfl (h [] List.mem_cons_self).1
      · simpa [isAbsolute, hc] using hslash

theorem Leads.eq_append {names there : List String} {ps qs : List (List Char)}
    (h : Leads names (possiblePieces (ps ++ qs)) there) (hn : (⟨there⟩ : Path).isUnnameable = false)
    (hq : ∀ piece ∈ qs, IsName piece) :
    there = (ps.foldl step names.reverse).reverse ++ qs.map String.ofList := by
  obtain rfl := leads_iff.1 h
  rw [possiblePieces_of_nameable hn, List.foldl_append, foldl_step_plain hq, List.reverse_append,
    List.reverse_reverse]

theorem Leads.plain_unique {names there : List String} {ps qs qs' : List (List Char)}
    (h : Leads names (possiblePieces (ps ++ qs)) there) (h' : Leads names (possiblePieces (ps ++ qs')) there)
    (hn : (⟨there⟩ : Path).isUnnameable = false) (hq : ∀ piece ∈ qs, IsName piece)
    (hq' : ∀ piece ∈ qs', IsName piece) : qs = qs' := by
  have heq := (h.eq_append hn hq).symm.trans (h'.eq_append hn hq')
  exact List.map_injective_iff.2 (fun _ _ => String.ofList_injective) (List.append_cancel_left heq)

theorem Names.eq_of_plain {home : Path} {base text text' : String} {p : Path} (h : home.Names base text p)
    (h' : home.Names base text' p) (hn : p.isUnnameable = false) (ht : IsPlain text) (ht' : IsPlain text') :
    text = text' := by
  rw [Names, isAbsolute_of_isPlain ht] at h
  rw [Names, isAbsolute_of_isPlain ht'] at h'
  exact eq_of_splitOn (h.plain_unique h' hn ht ht')

theorem Names.eq_of_slash_plain {home : Path} {base text text' : String} {p : Path}
    (h : home.Names base ("/" ++ text) p) (h' : home.Names base ("/" ++ text') p)
    (hn : p.isUnnameable = false) (ht : IsPlain text) (ht' : IsPlain text') : text = text' := by
  rw [Names, isAbsolute_slash, if_pos rfl, splitOn_slash] at h h'
  rw [← List.singleton_append] at h h'
  exact eq_of_splitOn (h.plain_unique h' hn ht ht')

theorem PlainlySpelled.resolve_injective {texts : List String} (h : PlainlySpelled texts) {home : Path}
    {base : String}
    (hn : ∀ text ∈ texts, (home.resolve (below base text)).isUnnameable = false) :
    ∀ text ∈ texts, ∀ text' ∈ texts,
      home.resolve (below base text) = home.resolve (below base text') → text = text' := by
  intro text ht text' ht' he
  have hnames : home.Names base text (home.resolve (below base text)) := names_iff.2 rfl
  have hnames' : home.Names base text' (home.resolve (below base text)) := names_iff.2 he
  rcases h with h | h
  · exact hnames.eq_of_plain hnames' (hn text ht) (h text ht) (h text' ht')
  · obtain ⟨rest, rfl, hrest⟩ := h text ht
    obtain ⟨rest', rfl, hrest'⟩ := h text' ht'
    rw [hnames.eq_of_slash_plain hnames' (hn _ ht) hrest hrest']

end Files.Path

namespace Imported

variable {t : Tree}

theorem isUnnameable_of_loadInclude {m d : Imported} {p : Path} (h : m.loadInclude t p = .ok d) :
    p.isUnnameable = false := by
  cases hn : p.isUnnameable with
  | false => rfl
  | true =>
      have hlook : t.look p = .error .unnameable := by rw [Tree.look, Tree.lookAs, hn, if_pos rfl]
      have hread : t.readText p.text p = .error .nullInPath := by rw [Tree.readText, ← Tree.look, hlook]; rfl
      have hexisting : ∀ missing, t.readExisting p missing = .error .nullInPath := by
        intro missing
        rw [Tree.readExisting, hlook, ← hread]
      rw [loadInclude, Tree.existingSource, hexisting] at h
      cases h

theorem isUnnameable_of_loadFiles {m : Imported} {ps : List Path} (h : (m.loadFiles t ps).2 = none) :
    ∀ p ∈ ps, p.isUnnameable = false := by
  induction ps generalizing m with
  | nil => exact List.forall_mem_nil _
  | cons p ps ih =>
      rw [loadFiles] at h
      cases hp : m.loadInclude t p with
      | error e => rw [hp] at h; cases h
      | ok d =>
          rw [hp] at h
          exact List.forall_mem_cons.2 ⟨isUnnameable_of_loadInclude hp, ih h⟩

end Imported

namespace Model

variable {t : Tree} {base : String} {m : Model}

def namedPaths (home : Path) (base : String) (m : Model) : List Path :=
  m.includes.map fun file => home.resolve (Path.below base file)

theorem isUnnameable_of_loadIncludes (h : (m.loadIncludes t base).2 = none) :
    ∀ file ∈ m.includes, (t.home.resolve (Path.below base file)).isUnnameable = false := by
  intro file hfile
  refine Imported.isUnnameable_of_loadFiles h _ ?_
  rw [includePaths, distinct_eq_eraseDups, List.mem_eraseDups]
  exact List.mem_map_of_mem hfile

theorem nodup_namedPaths_iff (hs : Path.PlainlySpelled m.includes) (h : (m.loadIncludes t base).2 = none) :
    (m.namedPaths t.home base).Nodup ↔ m.includes.Nodup :=
  ⟨List.Nodup.of_map _, fun hd => hd.map_on (hs.resolve_injective (isUnnameable_of_loadIncludes h))⟩

theorem repeatsInclude_of_duplicateError {file : String}
    (h : m.duplicateError = some (.repeatedInclude file)) : m.RepeatsInclude (.repeatedInclude file) := by
  obtain ⟨check, hmem, hcheck⟩ := (duplicateError_eq_some_iff.1 h).exists_mem
  simp only [nameChecks, List.mem_cons, List.not_mem_nil, or_false] at hmem
  rcases hmem with rfl | rfl | rfl | rfl | rfl | rfl
  · exact hcheck
  · obtain ⟨_, _, _, _, _, _, _, he⟩ := hcheck
    cases he
  · obtain ⟨_, _, _, _, _, _, _, he⟩ := hcheck
    cases he
  · obtain ⟨_, _, _, _, _, _, he⟩ := hcheck
    cases he
  · obtain ⟨_, _, _, _, _, _, _, he⟩ := hcheck
    cases he
  · obtain ⟨_, _, _, _, _, _, _, he⟩ := hcheck
    cases he

theorem duplicateError_repeatedInclude_iff :
    (∃ file ∈ m.includes, m.duplicateError = some (.repeatedInclude file)) ↔ ¬ m.includes.Nodup := by
  rw [← includeCollision_eq_none_iff]
  constructor
  · rintro ⟨file, -, h⟩ hnone
    rw [includeCollision_eq_some_iff.2 (repeatsInclude_of_duplicateError h)] at hnone
    cases hnone
  · intro h
    obtain ⟨e, he⟩ := Option.ne_none_iff_exists'.1 h
    obtain ⟨i, j, file, -, hfile, rfl⟩ := includeCollision_eq_some_iff.1 he
    exact ⟨file, List.mem_of_getElem? hfile, by rw [duplicateError, he]; rfl⟩

theorem runAll_check_of_duplicateError {e : Error} (h : m.duplicateError = some e) :
    Stage.runAll Stage.check m = (m, some e) := by
  rw [Stage.check, Stage.runAll, Stage.run, h]

theorem nodup_of_runAll_check {k : Model} (h : Stage.runAll Stage.check m = (k, none)) : m.includes.Nodup := by
  by_contra hd
  obtain ⟨file, -, he⟩ := duplicateError_repeatedInclude_iff.2 hd
  rw [runAll_check_of_duplicateError he] at h
  cases h

/-- What the loader skips is what the check reports: a build of the model `m` is rejected for a repeated
include if there are fewer files to load than includes, and an accepted one has different files. -/
structure SkippedIsReported (t : Tree) (base : String) (m : Model) (built : Except Error Model) : Prop where
  skipped_iff : (m.includePaths t.home base).length < m.includes.length ↔
    ∃ file ∈ m.includes, m.duplicateError = some (.repeatedInclude file) ∧ built = .error (.repeatedInclude file)
  distinct : ∀ k, built = .ok k → (m.namedPaths t.home base).Nodup

theorem skippedIsReported_of_plain {s : Source} {imported after : Imported}
    (h : parseSource t base s imported = (.ok m, after)) (hs : Path.PlainlySpelled m.includes) :
    SkippedIsReported t base m (checked Stage.check (parseSource t base s imported)).1 := by
  obtain ⟨n, -, hload, -⟩ := parseSource_eq_ok_iff.1 h
  have hincludes : m.includes = n.includes := (congrArg (·.1.includes) hload).symm
  have hnodup : (m.namedPaths t.home base).Nodup ↔ m.includes.Nodup := by
    rw [namedPaths, hincludes]
    exact nodup_namedPaths_iff (hincludes ▸ hs) (by rw [hload])
  have hskipped : (m.includePaths t.home base).length < m.includes.length ↔ ¬ m.includes.Nodup := by
    rw [← hnodup, ← length_distinct_lt_iff, namedPaths, List.length_map, includePaths]
  rw [h]
  constructor
  · rw [hskipped, ← duplicateError_repeatedInclude_iff]
    refine exists_congr fun file => and_congr_right fun _ => ⟨fun he => ⟨he, ?_⟩, And.left⟩
    simp only [checked, runAll_check_of_duplicateError he]
  · intro k hk
    rw [hnodup]
    obtain ⟨_, hchecked⟩ : ∃ after', checked Stage.check (.ok m, after) = (.ok k, after') := ⟨_, Prod.ext hk rfl⟩
    obtain ⟨_, hm, hrun⟩ := checked_eq_ok_iff.1 hchecked
    obtain rfl : m = _ := Except.ok.inj (congrArg Prod.fst hm)
    exact nodup_of_runAll_check hrun

/-- Programs whose includes are spelled plainly, given as texts or as files, are rejected for a repeated
include exactly if one of their includes is skipped, and if they are accepted their includes name different
files. -/
theorem skipped_include_is_reported (t : Tree) (imported : Imported) :
    (∀ base text m after, parseText t base text imported = (.ok m, after) → Path.PlainlySpelled m.includes →
      SkippedIsReported t base m (buildText t base text imported).1) ∧
    ∀ path m after, parseFile t path imported = (.ok m, after) → Path.PlainlySpelled m.includes →
      SkippedIsReported t (t.home.resolve path).parent.text m (buildFile t path imported).1 := by
  refine ⟨fun base text m after h hs => skippedIsReported_of_plain h hs, fun path m after h hs => ?_⟩
  rw [buildFile]
  rw [parseFile, programSource] at h ⊢
  cases he : t.existingSource (t.home.resolve path) (.programMissing (t.home.resolve path).text) with
  | error e =>
      rw [he] at h
      cases h
  | ok s =>
      rw [he] at h
      exact skippedIsReported_of_plain h hs

theorem skipped_include_is_reported_rl :
    let twice := "include \"a.rl\" include \"b.rl\" include \"a.rl\""
    let t : Tree := ⟨⟨["w"]⟩, [(⟨["w", "a.rl"]⟩, .bytes "type pose".toUTF8.toList),
      (⟨["w", "b.rl"]⟩, .bytes "type grip".toUTF8.toList),
      (⟨["w", "c.rl"]⟩, .bytes "include \"a.rl\" include \"b.rl\"".toUTF8.toList)]⟩
    (∃ m after, parseText t "" twice .empty = (.ok m, after) ∧
      (m.includePaths t.home "").length < m.includes.length ∧
      ∃ file ∈ m.includes, m.duplicateError = some (.repeatedInclude file) ∧
        (buildText t "" twice .empty).1 = .error (.repeatedInclude file)) ∧
    ∃ m after k, parseFile t "c.rl" .empty = (.ok m, after) ∧ (buildFile t "c.rl" .empty).1 = .ok k ∧
      (m.namedPaths t.home "/w").Nodup := by
  intro twice t
  obtain ⟨m, after, hm, hincludes, hlength⟩ : ∃ m after, parseText t "" twice .empty = (.ok m, after) ∧
      m.includes = ["a.rl", "b.rl", "a.rl"] ∧ (m.includePaths t.home "").length = 2 :=
    exists_model_of_any (by decide +kernel)
  obtain ⟨n, after', hn, hincludes'⟩ : ∃ n after, parseFile t "c.rl" .empty = (.ok n, after) ∧
      n.includes = ["a.rl", "b.rl"] :=
    exists_model_of_any (by decide +kernel)
  obtain ⟨k, hk⟩ : ∃ k, (buildFile t "c.rl" .empty).1 = .ok k := exists_of_isOk (by decide +kernel)
  obtain ⟨htext, hfile⟩ := skipped_include_is_reported t .empty
  constructor
  · have hskipped : (m.includePaths t.home "").length < m.includes.length := by
      rw [hlength, hincludes]
      decide
    have hplain : Path.PlainlySpelled m.includes := hincludes ▸ .inl (by decide)
    exact ⟨m, after, hm, hskipped, (htext "" twice m after hm hplain).skipped_iff.1 hskipped⟩
  · have hplain : Path.PlainlySpelled n.includes := hincludes' ▸ .inl (by decide)
    exact ⟨n, after', k, hn, hk, (hfile "c.rl" n after' hn hplain).distinct k hk⟩

theorem accepted_includes_same_file :
    ¬ ∀ (t : Tree) (base text : String) (imported : Imported) (m : Model) (after : Imported),
      buildText t base text imported = (.ok m, after) → (m.namedPaths t.home base).Nodup := by
  intro h
  let t : Tree := ⟨⟨["w"]⟩, [(⟨["w", "a.rl"]⟩, .bytes "type T".toUTF8.toList)]⟩
  let text := "include \"a.rl\"\ninclude \"./a.rl\""
  obtain ⟨m, after, hb, hpaths⟩ : ∃ m after, buildText t "" text .empty = (.ok m, after) ∧
      m.namedPaths t.home "" = [⟨["w", "a.rl"]⟩, ⟨["w", "a.rl"]⟩] :=
    exists_model_of_any (by decide +kernel)
  have hnodup := h t "" text .empty m after hb
  rw [hpaths] at hnodup
  exact absurd hnodup (by decide)

end Model

end RobotLang
