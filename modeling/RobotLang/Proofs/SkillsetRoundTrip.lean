import RobotLang.Proofs.Contents
import RobotLang.Proofs.Reachable
import RobotLang.Proofs.SkillsetTexts

namespace RobotLang

open Files Grammar Text

namespace Grammar

variable {name : String} {skills : List String}

theorem spelled_skills (h : ∀ skill ∈ skills, IsIdentifier skill) :
    Spelled (skills.flatMap skillLexemes) (joined " " (skills.map ("skill " ++ ·))) := by
  have hskill : ∀ skill ∈ skills, Spelled (skillLexemes skill) ("skill " ++ skill) :=
    fun skill hs => spelled_keyword (w := "skill") (by decide) (h skill hs)
  cases skills with
  | nil => exact fun ys s hs _ => hs
  | cons skill skills =>
      have hblank : ∀ ys s, Printed ys s → Printed ([] ++ ys) (" ".toList ++ s) :=
        fun _ _ hs => printed_blank (by decide) hs
      exact spelled_joined hblank (fun _ => rfl) hskill

theorem spelled_typeLine {t : ImportedType} (h : IsIdentifier t.name) :
    Spelled ((SkillsetEntry.type 0 t.name).lexemes false) (Imported.typeLine t) :=
  spelled_keyword (w := "type") (by decide) h

theorem spelled_skillsetLine {s : Skillset} (hn : IsIdentifier s.name)
    (hs : ∀ skill ∈ s.skills, IsIdentifier skill) :
    Spelled ((SkillsetEntry.skillset 0 s.name s.skills).lexemes false) (Imported.skillsetLine s) := by
  have hname : Spelled [.word "skillset", .word s.name] ("skillset " ++ s.name) :=
    spelled_keyword (w := "skillset") (by decide) hn
  by_cases he : s.skills = []
  · simpa [Imported.skillsetLine, SkillsetEntry.lexemes, he] using hname
  · intro ys t ht _
    have hclose : Printed (.symbol '\x7d' :: ys) (' ' :: '\x7d' :: t) :=
      printed_blank (by decide) (printed_symbol (by decide) ht)
    have hskills := spelled_skills hs _ _ hclose rfl
    have hopen := hname _ _ (printed_blank (c := ' ') (by decide) (printed_symbol (c := '\x7b') (by decide)
      (printed_blank (c := ' ') (by decide) hskills))) rfl
    simpa [Imported.skillsetLine, SkillsetEntry.lexemes, skillListLexemes, he] using hopen

end Grammar

namespace Imported

variable {m n : Imported} {s : Source}

structure HasIdentifiers (m : Imported) : Prop where
  types : ∀ t ∈ m.types, IsIdentifier t.name
  skillsets : ∀ s ∈ m.skillsets, IsIdentifier s.name ∧ ∀ skill ∈ s.skills, IsIdentifier skill

def entries (m : Imported) : List SkillsetEntry :=
  m.types.map (fun t => .type 0 t.name) ++ m.skillsets.map fun s => .skillset 0 s.name s.skills

theorem holds_entries (m : Imported) : m.Holds m.entries where
  types := by simp [typeNames, entries, List.filterMap_map, Function.comp_def, SkillsetEntry.type?]
  skillsets := by simp [skillLists, entries, List.filterMap_map, Function.comp_def, SkillsetEntry.skillset?]

theorem entries_ne_nil (h : m ≠ empty) : m.entries ≠ [] := by
  intro he
  obtain ⟨ht, hs⟩ := List.append_eq_nil_iff.1 he
  rcases m with ⟨types, skillsets⟩
  obtain rfl : types = [] := List.map_eq_nil_iff.1 ht
  obtain rfl : skillsets = [] := List.map_eq_nil_iff.1 hs
  exact h rfl

def lines (m : Imported) : List (List Lexeme × String) :=
  m.types.map (fun t => ((SkillsetEntry.type 0 t.name).lexemes false, typeLine t)) ++
    m.skillsets.map fun s => ((SkillsetEntry.skillset 0 s.name s.skills).lexemes false, skillsetLine s)

theorem toList_text (m : Imported) : m.text.toList = m.lines.flatMap fun l => l.2.toList ++ ['\n'] := by
  have hlines : m.types.map typeLine ++ m.skillsets.map skillsetLine = m.lines.map Prod.snd := by
    simp [lines, Function.comp_def]
  rw [text, hlines]
  by_cases hnil : m.lines.map Prod.snd = []
  · rw [if_pos hnil, List.map_eq_nil_iff.1 hnil]
    rfl
  · rw [if_neg hnil, toList_joined_lines hnil, List.flatMap_map]

theorem flatMap_lines_fst (m : Imported) :
    m.lines.flatMap Prod.fst = skillsetLexemes (m.entries.map fun e => (false, e)) := by
  simp [lines, entries, skillsetLexemes, List.flatMap_map]

theorem layout_text (h : m.HasIdentifiers) :
    Layout (skillsetLexemes (m.entries.map fun e => (false, e))) m.text.toList := by
  have hlines : ∀ l ∈ m.lines, Spelled l.1 l.2 := by
    simp only [lines, List.forall_mem_append, List.forall_mem_map]
    exact ⟨fun t ht => spelled_typeLine (h.types t ht),
      fun s hs => spelled_skillsetLine (h.skillsets s hs).1 (h.skillsets s hs).2⟩
  have hprinted := printed_lines hlines
  rw [← toList_text, flatMap_lines_fst] at hprinted
  refine hprinted.layout ?_
  rw [strings_skillsetLexemes]
  exact quotable_of_not_mem (List.forall_mem_nil _)

theorem declares_text (h : m.HasIdentifiers) (hne : m ≠ empty) :
    (Source.mk none m.text.toList).Declares m.entries :=
  Source.declares_iff_layout.2 ⟨entries_ne_nil hne, _, by simp [Function.comp_def], layout_text h⟩

theorem text_unplaced (m : Imported) : m.unplaced.text = m.text := by
  simp only [text, unplaced, List.map_map]
  rfl

/-- The text loads back as the same entries, and these are written as the same text. -/
def LoadsBack (m : Imported) : Prop :=
  ∃ n, empty.load ⟨none, m.text.toList⟩ = .ok n ∧ n.unplaced = m.unplaced ∧ n.text = m.text

end Imported

namespace Model

theorem IsNumbered.unplaced_imported_eq {m n : Model} (hm : m.IsNumbered) (hn : n.IsNumbered)
    {es : List SkillsetEntry} (h : m.imported.Holds es) (h' : n.imported.Holds es) :
    m.imported.unplaced = n.imported.unplaced := by
  have htypes : m.imported.types.map Entity.unplaced = n.imported.types.map Entity.unplaced :=
    map_eq_of_numbered (fun _ _ => entity_unplaced_eq) (by simpa using hm.importedTypes)
      (by simpa using hn.importedTypes) (h.types.trans h'.types.symm)
  have hskillsets : m.imported.skillsets.map Skillset.unplaced = n.imported.skillsets.map Skillset.unplaced := by
    refine map_eq_of_numbered (fun s s' hid hs => ?_) hm.skillsets hn.skillsets
      (h.skillsets.trans h'.skillsets.symm)
    obtain ⟨hname, hskills⟩ := Prod.mk.inj hs
    rw [Skillset.unplaced, Skillset.unplaced, entity_unplaced_eq hid hname, hskills]
  rw [Imported.unplaced, Imported.unplaced, htypes, hskillsets]

end Model

namespace Reachable

variable {m : Model} {imported : Imported}

theorem load {text : String} (h : Reachable m) (hl : m.imported.load ⟨none, text.toList⟩ = .ok imported) :
    Reachable { m with imported } := by
  have he : Reachable (Edit.withImported m (m.imported.load ⟨none, text.toList⟩)).1 :=
    h.edit ⟨.root, []⟩ (.loadSkillset text) Expr.unbound_nil trivial
  rw [hl] at he
  exact he

theorem loadsBack (h : Reachable m) (hi : m.imported.HasIdentifiers) (hne : m.imported ≠ .empty) :
    m.imported.LoadsBack := by
  obtain ⟨n, hn, hholds⟩ := Imported.load_empty_of_declares (Imported.declares_text hi hne)
  have hempty : Reachable .empty := .empty
  have hu : n.unplaced = m.imported.unplaced :=
    (hempty.load hn).isNumbered.unplaced_imported_eq h.isNumbered hholds m.imported.holds_entries
  refine ⟨n, hn, hu, ?_⟩
  rw [← n.text_unplaced, hu, Imported.text_unplaced]

end Reachable

namespace Grammar

def SkillsetEntry.IsProper : SkillsetEntry → Prop
  | type _ name => IsIdentifier name
  | skillset _ name skills => IsIdentifier name ∧ ∀ skill ∈ skills, IsIdentifier skill

theorem SkillsetEntry.isProper_of_lexemes (braces : Bool) {e : SkillsetEntry}
    (h : ∀ w, .word w ∈ e.lexemes braces → IsIdentifier w) : e.IsProper := by
  cases e with
  | type mark name => exact h name (by simp [lexemes])
  | skillset mark name skills =>
      refine ⟨h name (by simp [lexemes]), fun skill hs => h skill ?_⟩
      have hne : skills ≠ [] := List.ne_nil_of_mem hs
      have hskill : Lexeme.word skill ∈ skills.flatMap skillLexemes :=
        List.mem_flatMap.2 ⟨skill, hs, by simp [skillLexemes]⟩
      simp [lexemes, skillListLexemes, hne, hskill]

theorem isProper_of_run_skillsetFile {s r : List Char} {es : List SkillsetEntry}
    (h : skillsetFile.run s = some (es, r)) : ∀ e ∈ es, e.IsProper := by
  obtain ⟨ds, rfl, hlay⟩ := layout_of_run_skillsetFile h
  refine List.forall_mem_map.2 fun d hd => SkillsetEntry.isProper_of_lexemes d.1 fun w hw => ?_
  exact hlay.isIdentifier (List.mem_flatMap.2 ⟨d, hd, hw⟩)

end Grammar

namespace Imported.HasIdentifiers

variable {m n : Imported} {s : Source}

theorem add (h : m.HasIdentifiers) {e : SkillsetEntry} (he : e.IsProper) : (Imported.add s m e).HasIdentifiers := by
  cases e with
  | type mark name => exact { h with types := List.forall_mem_append.2 ⟨h.types, List.forall_mem_singleton.2 he⟩ }
  | skillset mark name skills =>
      exact { h with skillsets := List.forall_mem_append.2 ⟨h.skillsets, List.forall_mem_singleton.2 he⟩ }

theorem addAll (h : m.HasIdentifiers) {es : List SkillsetEntry} (hes : ∀ e ∈ es, e.IsProper) :
    (m.addAll s es).HasIdentifiers := by
  induction es generalizing m with
  | nil => exact h
  | cons e es ih =>
      obtain ⟨he, hes⟩ := List.forall_mem_cons.1 hes
      exact ih (h.add he) hes

theorem load (h : m.HasIdentifiers) (hl : m.load s = .ok n) : n.HasIdentifiers := by
  obtain ⟨es, hs, rfl⟩ := Imported.load_eq_ok_iff.1 hl
  obtain ⟨⟨r, hrun⟩, -⟩ := Source.read_eq_ok_iff.1 hs
  exact h.addAll (isProper_of_run_skillsetFile hrun)

end Imported.HasIdentifiers

/-- Loads of texts, whether or not they are accepted, leave models whose imported names are identifiers. -/
theorem Reachable.loadAll {m : Model} (hm : Reachable m) (hi : m.imported.HasIdentifiers) (t : Tree)
    (texts : List String) :
    Reachable (Edit.applyAll t m (texts.map .loadSkillset)) ∧
      (Edit.applyAll t m (texts.map .loadSkillset)).imported.HasIdentifiers := by
  induction texts generalizing m with
  | nil => exact ⟨hm, hi⟩
  | cons text texts ih =>
      have hstep : Edit.applyAll t m ((text :: texts).map .loadSkillset) = Edit.applyAll t
          (Edit.withImported m (m.imported.load ⟨none, text.toList⟩)).1 (texts.map .loadSkillset) := rfl
      rw [hstep]
      cases hl : m.imported.load ⟨none, text.toList⟩ with
      | error e => exact ih hm hi
      | ok imported => exact ih (hm.load hl) (hi.load hl)

/-- The text of imported entries loads back as these entries, with the same numbers, names and skills, and is
what is written for them again. It does so for every model with some entries whose names are identifiers, and
the names in texts that have been loaded always are. -/
theorem Imported.text_loads_back :
    (∀ m : Model, Reachable m → m.imported.HasIdentifiers → m.imported ≠ empty → m.imported.LoadsBack) ∧
      ∀ (t : Tree) (texts : List String) (m : Model), m = Edit.applyAll t .empty (texts.map .loadSkillset) →
        m.imported ≠ empty → m.imported.LoadsBack := by
  refine ⟨fun m hm hi hne => hm.loadsBack hi hne, ?_⟩
  rintro t texts _ rfl hne
  have hempty : Reachable .empty := .empty
  obtain ⟨hm, hi⟩ := hempty.loadAll ⟨List.forall_mem_nil _, List.forall_mem_nil _⟩ t texts
  exact hm.loadsBack hi hne

theorem Imported.text_loads_back_skillset :
    let t : Tree := ⟨.root, []⟩
    let m := Edit.applyAll t .empty
      [.addSkillset "skill" [] none, .addImportedType "type" none, .addSkillset "skillset" ["skill", "type"] none]
    let n := Edit.applyAll t .empty (["skillset arm \x7b \x7d type pose", "skillset", "type skill"].map .loadSkillset)
    Reachable m ∧ m.imported.HasIdentifiers ∧ m.imported ≠ empty ∧ m.imported.LoadsBack ∧
      m.imported.text = "type type\nskillset skill\nskillset skillset \x7b skill skill skill type \x7d\n" ∧
      n.imported ≠ empty ∧ n.imported.LoadsBack ∧
      n.imported.text = "type pose\ntype skill\nskillset arm\n" := by
  intro t m n
  have hempty : Reachable .empty := .empty
  have hm : Reachable m := hempty.applyAll t _ (by decide)
  have hi : m.imported.HasIdentifiers := ⟨by decide, by decide⟩
  have hne : m.imported ≠ empty := by decide
  have hn : n.imported ≠ empty := by decide +kernel
  exact ⟨hm, hi, hne, text_loads_back.1 m hm hi hne, by decide +kernel, hn, text_loads_back.2 t _ n rfl hn,
    by decide +kernel⟩

end RobotLang
