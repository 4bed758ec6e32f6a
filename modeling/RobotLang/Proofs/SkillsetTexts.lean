import RobotLang.Proofs.ReadModels
import RobotLang.Proofs.Unplaced

namespace RobotLang

open Grammar

namespace Grammar

open Text RobotLang.Grammar.Parser

variable {α : Type} {s r t : List Char} {xs ys : List Lexeme}

/-! ### Layouts of entries -/

def skillLexemes (skill : String) : List Lexeme := [.word "skill", .word skill]

def skillListLexemes (skills : List String) : List Lexeme :=
  .symbol '\x7b' :: (skills.flatMap skillLexemes ++ [.symbol '\x7d'])

namespace SkillsetEntry

def lexemes (braces : Bool) : SkillsetEntry → List Lexeme
  | type _ name => [.word "type", .word name]
  | skillset _ name skills =>
    .word "skillset" :: .word name :: if braces || skills ≠ [] then skillListLexemes skills else []

def unmarked : SkillsetEntry → SkillsetEntry
  | type _ name => type 0 name
  | skillset _ name skills => skillset 0 name skills

end SkillsetEntry

def skillsetLexemes (es : List (Bool × SkillsetEntry)) : List Lexeme := es.flatMap fun e => e.2.lexemes e.1

/-! ### Reading -/

def NotOpening (ys : List Lexeme) : Prop := ys.head? ≠ some (.symbol '\x7b')

theorem reads_skill (name : String) : Reads skill (skillLexemes name) anything fun n => n = name := by
  refine reads_heading (by decide) (fun _ _ => rfl) fun _ _ => ?_
  exact .pure rfl

theorem reads_skillList (skills : List String) :
    Reads skillList (skillListLexemes skills) anything fun ns => ns = skills := by
  have hskills : Reads (Parser.many skill) (skills.flatMap skillLexemes) (fun ys => ∃ zs, ys = .symbol '\x7d' :: zs)
      fun ns => ns.map id = skills.map id := by
    refine reads_many (fun n _ => reads_skill n) (fun _ _ => List.cons_ne_nil _ _) (fun _ _ _ => trivial) ?_
    rintro _ ⟨zs, rfl⟩
    exact ⟨trivial, (refuses_word (by decide) (by simp)).bind _⟩
  have h : Reads skillList ([Lexeme.symbol '\x7b'] ++ (skills.flatMap skillLexemes ++ ([Lexeme.symbol '\x7d'] ++ [])))
      anything fun ns => ns = skills := by
    refine (reads_symbol '\x7b').bind (fun _ _ => ?_) fun _ _ => trivial
    refine hskills.bind (fun ns hns => ?_) fun zs _ => ⟨zs, rfl⟩
    exact (reads_symbol '\x7d').bind (fun _ _ => .pure (by simpa using hns)) fun _ _ => trivial
  exact h

theorem reads_optional_skillList (braces : Bool) (skills : List String) :
    Reads (Parser.optional skillList) (if braces || skills ≠ [] then skillListLexemes skills else []) NotOpening
      fun o => o.getD [] = skills := by
  intro ys s hys hs
  split at hs
  · obtain ⟨ns, r, hns, rfl, hr⟩ := reads_skillList skills ys s trivial hs
    exact ⟨some ns, r, run_optional_of_some hns, rfl, hr⟩
  next hb =>
    have hnone : skills = [] := by
      by_contra hne
      exact hb (by simp [hne])
    have hrefuses : Refuses skillList ys := (refuses_symbol (by decide) hys).bind _
    exact ⟨none, s, run_optional_of_none (hrefuses s hs), hnone.symm, hs⟩

theorem reads_dataType (name : String) :
    Reads dataType [.word "type", .word name] NotOpening fun e => e.unmarked = .type 0 name := by
  refine reads_heading (by decide) (fun _ _ => rfl) fun _ _ => ?_
  exact .pure rfl

theorem reads_skillset (braces : Bool) (mark : Nat) (name : String) (skills : List String) :
    Reads skillset ((SkillsetEntry.skillset mark name skills).lexemes braces) NotOpening
      fun e => e.unmarked = .skillset 0 name skills := by
  refine reads_heading (by decide) (fun _ _ => rfl) fun _ _ => ?_
  refine (reads_optional_skillList braces skills).bind_pure fun o ho => ?_
  rw [SkillsetEntry.unmarked, ho]

theorem reads_skillsetEntry (braces : Bool) (e : SkillsetEntry) :
    Reads skillsetEntry (e.lexemes braces) NotOpening fun e' => e'.unmarked = e.unmarked := by
  cases e with
  | type mark name => exact (reads_dataType name).orElse_left _
  | skillset mark name skills =>
      exact .orElse_right (fun _ _ => refuses_keyword (by decide) (by decide) _ _)
        (reads_skillset braces mark name skills)

theorem refuses_skillsetEntry_nil : Refuses skillsetEntry [] :=
  ((refuses_word (by decide) (by simp)).bind _).orElse ((refuses_word (by decide) (by simp)).bind _)

/-- The entries of a skillset file are recovered from every layout of them, up to marks. -/
theorem run_skillsetFile_of_layout {es : List (Bool × SkillsetEntry)} (hs : Layout (skillsetLexemes es) s) :
    ∃ es', skillsetFile.run s = some (es', []) ∧
      es'.map SkillsetEntry.unmarked = es.map fun e => e.2.unmarked := by
  refine run_finish_of_reads (reads_many (fun e _ => reads_skillsetEntry e.1 e.2) (fun e _ => ?_) (fun e _ zs => ?_)
    ?_) hs
  · cases e.2 <;> exact List.cons_ne_nil _ _
  · cases e.2 <;> simp [NotOpening, SkillsetEntry.lexemes]
  · rintro _ rfl
    exact ⟨nofun, refuses_skillsetEntry_nil⟩

/-! ### What has been read is laid out -/

def layouts : Record Lexeme where
  holds s xs r := ∀ ys, Layout ys r → Layout (xs ++ ys) s
  nothing _ _ h := h
  trans h h' zs hz := by
    rw [List.append_assoc]
    exact h _ (h' zs hz)

theorem lays_token {terminal : Terminal} {scan : List Char → Option (α × List Char)} {f : α → Lexeme}
    (h : ∀ s a r, scan s = some (a, r) → ∃ cs, s = cs ++ r ∧ (f a).Before r cs) :
    Lists layouts (token terminal scan) fun t => [f t.2] := by
  rintro s ⟨mark, a⟩ r ht
  obtain ⟨-, ha⟩ := run_token_eq_some ht
  obtain ⟨cs, hs, hx⟩ := h (skip s) a r ha
  exact ⟨[f a], fun ys hys => .of_skip (hs ▸ .touching hx hys), rfl⟩

theorem lays_word {w : String} (hw : IsIdentifier w) : Lists layouts (word w) fun _ => [.word w] := by
  refine lays_token (f := fun _ => .word w) fun s _ r h => ?_
  obtain ⟨hs, hr⟩ := scanWord_eq_some h
  exact ⟨w.toList, hs, .word hw hr⟩

theorem lays_identifier : Lists layouts identifier fun t => [.word t.2] := by
  refine lays_token fun s w r h => ?_
  obtain ⟨hw, htake, rfl⟩ := scanIdentifier_eq_some h
  exact ⟨w.toList, htake ▸ List.takeWhile_append_dropWhile.symm, .word hw (wordEnds_dropWhile s)⟩

theorem lays_symbol {c : Char} (hc : c ∈ symbols) : Lists layouts (symbol c) fun _ => [.symbol c] :=
  lays_token (f := fun _ => .symbol c) fun _ _ _ h => ⟨[c], scanSymbol_eq_some h, .symbol hc⟩

theorem lays_skill : Lists layouts skill skillLexemes := by
  refine (lays_word (by decide)).seq fun _ => lays_identifier.seq ?_
  rintro ⟨mark, name⟩
  exact .pure rfl

theorem lays_skillList : Lists layouts skillList skillListLexemes :=
  (lays_symbol (by decide)).seq fun _ => lays_skill.many.seq fun _ => (lays_symbol (by decide)).seq fun _ =>
    .pure (by simp [skillListLexemes])

theorem lays_skillsetEntry :
    Leaves layouts skillsetEntry fun e xs => ∃ braces, xs = e.lexemes braces := by
  have htype : Leaves layouts dataType fun e xs => ∃ braces, xs = e.lexemes braces := by
    refine (lays_word (by decide)).heading lays_identifier (fun _ _ => rfl) fun _ _ name => ?_
    exact .pure ⟨false, rfl⟩
  have hskillset : Leaves layouts skillset fun e xs => ∃ braces, xs = e.lexemes braces := by
    refine (lays_word (by decide)).heading lays_identifier (fun _ _ => rfl) fun _ _ name => ?_
    refine lays_skillList.optional.seq fun o => .pure ?_
    cases o with
    | none => exact ⟨false, by simp [SkillsetEntry.lexemes]⟩
    | some skills => exact ⟨true, by simp [SkillsetEntry.lexemes]⟩
  exact htype.orElse hskillset

theorem exists_braces {es : List SkillsetEntry} {rows : List (List Lexeme)}
    (h : List.Forall₂ (fun e xs => ∃ braces, xs = e.lexemes braces) es rows) :
    ∃ ds : List (Bool × SkillsetEntry), ds.map Prod.snd = es ∧ skillsetLexemes ds = rows.flatten := by
  induction h with
  | nil => exact ⟨[], rfl, rfl⟩
  | @cons e _ es rows he _ ih =>
      obtain ⟨braces, rfl⟩ := he
      obtain ⟨ds, rfl, hds⟩ := ih
      exact ⟨(braces, e) :: ds, rfl, by rw [List.flatten_cons, ← hds]; rfl⟩

/-- What the grammar of skillset files answers with is laid out in the text. -/
theorem layout_of_run_skillsetFile {es : List SkillsetEntry} (h : skillsetFile.run s = some (es, r)) :
    ∃ ds : List (Bool × SkillsetEntry), ds.map Prod.snd = es ∧ Layout (skillsetLexemes ds) s := by
  obtain ⟨t, hes, ht⟩ := run_finish_eq_some h
  obtain ⟨xs, hxs, rows, hrows, rfl⟩ := lays_skillsetEntry.many s es t hes
  obtain ⟨ds, hds, hlex⟩ := exists_braces hrows
  have hlay := hxs [] (.of_skip (ht ▸ .nil (.gap .nil)))
  rw [List.append_nil, ← hlex] at hlay
  exact ⟨ds, hds, hlay⟩

/-! ### One text behind the other -/

theorem Lexeme.Before.append_line {x : Lexeme} {cs : List Char} (hx : x.content? = none) (h : x.Before s cs)
    (t : List Char) : x.Before (s ++ '\n' :: t) cs := by
  cases h with
  | word hw hs =>
      refine .word hw ?_
      cases s with
      | nil => rfl
      | cons c s => exact hs
  | symbol hc => exact .symbol hc
  | string h => cases hx
  | numeral hd h hs => exact .numeral hd h hs

theorem FinalGap.append_line {g : List Char} (h : FinalGap g) : Gap (g ++ ['\n']) := by
  have hend : Gap ['\n'] := .blank rfl .nil
  cases h with
  | gap hg => exact hg.append hend
  | @comment line g hl hg =>
      rw [List.append_assoc]
      exact hg.append (.comment hl .nil)

/-- Texts without strings can be put one behind the other, each in lines of its own. -/
theorem Layout.append_line (hxs : Lexeme.strings xs = []) (h : Layout xs s) (h' : Layout ys t) :
    Layout (xs ++ ys) (s ++ '\n' :: t) := by
  induction h with
  | @nil s h =>
      rw [show s ++ '\n' :: t = s ++ ['\n'] ++ t by simp]
      exact .gap_append h.append_line h'
  | @cons x xs g cs s hg hx _ ih =>
      have hstrings : ∀ y ∈ x :: xs, y.content? = none := List.filterMap_eq_nil_iff.1 hxs
      obtain ⟨hfirst, hrest⟩ := List.forall_mem_cons.1 hstrings
      rw [List.append_assoc, List.append_assoc]
      exact .cons hg (hx.append_line hfirst t) (ih (List.filterMap_eq_nil_iff.2 hrest))

theorem strings_lexemes (braces : Bool) (e : SkillsetEntry) : Lexeme.strings (e.lexemes braces) = [] := by
  cases e with
  | type mark name => rfl
  | skillset mark name skills =>
      have hskills : Lexeme.strings (skills.flatMap skillLexemes) = [] := by
        rw [Lexeme.strings, List.filterMap_flatMap]
        exact List.flatMap_eq_nil_iff.2 fun _ _ => rfl
      have hlist : Lexeme.strings (skillListLexemes skills) = [] := by
        show Lexeme.strings (skills.flatMap skillLexemes ++ [Lexeme.symbol '\x7d']) = []
        rw [Lexeme.strings_append, hskills]
        rfl
      show Lexeme.strings (if _ then skillListLexemes skills else []) = []
      split
      · exact hlist
      · rfl

theorem strings_skillsetLexemes (es : List (Bool × SkillsetEntry)) : Lexeme.strings (skillsetLexemes es) = [] := by
  rw [Lexeme.strings, skillsetLexemes, List.filterMap_flatMap]
  exact List.flatMap_eq_nil_iff.2 fun e _ => strings_lexemes e.1 e.2

end Grammar

/-! ### Declared entries -/

namespace Source

/-- A text is accepted and declares these entries, up to marks. -/
def Declares (s : Source) (es : List SkillsetEntry) : Prop :=
  ∃ fs, s.skillsets = .ok fs ∧ fs.map SkillsetEntry.unmarked = es.map SkillsetEntry.unmarked

variable {s : Source} {es fs : List SkillsetEntry}

theorem declares_iff_layout :
    s.Declares es ↔ es ≠ [] ∧ ∃ ds : List (Bool × SkillsetEntry),
      (ds.map fun d => d.2.unmarked) = es.map SkillsetEntry.unmarked ∧ Layout (skillsetLexemes ds) s.text := by
  constructor
  · rintro ⟨fs, hfs, hmap⟩
    obtain ⟨⟨r, hrun⟩, hne⟩ := read_eq_ok_iff.1 hfs
    obtain ⟨ds, rfl, hlay⟩ := layout_of_run_skillsetFile hrun
    rw [List.map_map] at hmap
    refine ⟨?_, ds, hmap, hlay⟩
    rintro rfl
    exact hne (congrArg _ (List.map_eq_nil_iff.1 hmap))
  · rintro ⟨hne, ds, hmap, hlay⟩
    obtain ⟨fs, hrun, hfs⟩ := run_skillsetFile_of_layout hlay
    refine ⟨fs, read_eq_ok_iff.2 ⟨⟨[], hrun⟩, ?_⟩, hfs.trans hmap⟩
    rintro rfl
    exact hne (List.map_eq_nil_iff.1 (hfs.trans hmap).symm)

theorem Declares.append_line {file : Option String} {a b : List Char} (ha : Declares ⟨file, a⟩ es)
    (hb : Declares ⟨file, b⟩ fs) : Declares ⟨file, a ++ '\n' :: b⟩ (es ++ fs) := by
  obtain ⟨hne, ds, hds, hlay⟩ := declares_iff_layout.1 ha
  obtain ⟨-, ds', hds', hlay'⟩ := declares_iff_layout.1 hb
  refine declares_iff_layout.2 ⟨List.append_ne_nil_of_left_ne_nil hne _, ds ++ ds', ?_, ?_⟩
  · rw [List.map_append, List.map_append, hds, hds']
  · rw [skillsetLexemes, List.flatMap_append]
    exact .append_line (strings_skillsetLexemes ds) hlay hlay'

end Source

/-! ### Loaded entries -/

namespace Grammar.SkillsetEntry

def type? : SkillsetEntry → Option String
  | type _ name => some name
  | skillset .. => none

def skillset? : SkillsetEntry → Option (String × List String)
  | type .. => none
  | skillset _ name skills => some (name, skills)

theorem type?_unmarked (e : SkillsetEntry) : e.unmarked.type? = e.type? := by
  cases e <;> rfl

theorem skillset?_unmarked (e : SkillsetEntry) : e.unmarked.skillset? = e.skillset? := by
  cases e <;> rfl

end Grammar.SkillsetEntry

/-- A text with the entries that stand in it. -/
structure SkillsetText where
  source : Source
  entries : List SkillsetEntry

namespace SkillsetText

def types (f : SkillsetText) : List (String × Option Position) :=
  f.entries.filterMap fun
    | .type mark name => some (name, f.source.position mark)
    | .skillset .. => none

def skillsets (f : SkillsetText) : List (String × List String × Option Position) :=
  f.entries.filterMap fun
    | .type .. => none
    | .skillset mark name skills => some (name, skills, f.source.position mark)

theorem map_types (f : SkillsetText) : f.types.map (·.1) = f.entries.filterMap SkillsetEntry.type? := by
  rw [types, List.map_filterMap]
  congr 1
  funext e
  cases e <;> rfl

theorem map_skillsets (f : SkillsetText) :
    f.skillsets.map (fun s => (s.1, s.2.1)) = f.entries.filterMap SkillsetEntry.skillset? := by
  rw [skillsets, List.map_filterMap]
  congr 1
  funext e
  cases e <;> rfl

end SkillsetText

theorem map_mapIdx_eq_map {α β γ : Type} {f : Nat → α → β} {g : β → γ} {h : α → γ} (as : List α)
    (hg : ∀ i a, g (f i a) = h a) : (as.mapIdx f).map g = as.map h := by
  refine List.ext_getElem? fun i => ?_
  simp [hg, Function.comp_def]

namespace Imported

variable {m n : Imported} {s : Source} {es fs : List SkillsetEntry} {a b : String}

/-- Imported entries and behind them those of texts, one text after the other, each entry once. Numbers go on
from those that are there. -/
def declaring (m : Imported) (files : List SkillsetText) : Imported where
  types := m.types ++ (files.flatMap SkillsetText.types).mapIdx fun i t => ⟨⟨m.types.length + i⟩, t.1, t.2⟩
  skillsets :=
    m.skillsets ++
      (files.flatMap SkillsetText.skillsets).mapIdx fun i s => ⟨⟨⟨m.skillsets.length + i⟩, s.1, s.2.2⟩, s.2.1⟩

theorem declaring_nil (m : Imported) : m.declaring [] = m := by
  simp [declaring]

theorem declaring_declaring (m : Imported) (files more : List SkillsetText) :
    (m.declaring files).declaring more = m.declaring (files ++ more) := by
  simp [declaring, List.mapIdx_append, Int.add_comm, Int.add_left_comm]

theorem add_eq (s : Source) (m : Imported) (e : SkillsetEntry) : add s m e = m.declaring [⟨s, [e]⟩] := by
  cases e with
  | type mark name => simp [add, addType, declaring, SkillsetText.types, SkillsetText.skillsets, EntityId.next]
  | skillset mark name skills =>
      simp [add, addSkillset, declaring, SkillsetText.types, SkillsetText.skillsets, EntityId.next]

theorem addAll_eq (s : Source) (m : Imported) (es : List SkillsetEntry) :
    m.addAll s es = m.declaring [⟨s, es⟩] := by
  induction es generalizing m with
  | nil => exact (declaring_nil m).symm
  | cons e es ih =>
      have hsplit : m.declaring [⟨s, [e]⟩, ⟨s, es⟩] = m.declaring [⟨s, e :: es⟩] := by
        cases e <;> rfl
      rw [addAll, List.foldl_cons, add_eq, ← addAll, ih, declaring_declaring]
      exact hsplit

theorem load_of_skillsets (h : s.skillsets = .ok es) (m : Imported) : m.load s = .ok (m.declaring [⟨s, es⟩]) :=
  load_eq_ok_iff.2 ⟨es, h, addAll_eq s m es⟩

/-- Imported entries and behind them those of others, whose numbers go on from theirs. -/
def followedBy (m : Imported) (ds : List Imported) : Imported where
  types := m.types ++ (ds.flatMap (·.types)).mapIdx fun i t => { t with id := ⟨m.types.length + i⟩ }
  skillsets :=
    m.skillsets ++ (ds.flatMap (·.skillsets)).mapIdx fun i s => { s with id := ⟨m.skillsets.length + i⟩ }

theorem followedBy_followedBy (m : Imported) (ds es : List Imported) :
    (m.followedBy ds).followedBy es = m.followedBy (ds ++ es) := by
  simp [followedBy, List.mapIdx_append, Int.add_comm, Int.add_left_comm]

theorem followedBy_declaring (m : Imported) (files : List SkillsetText) :
    m.followedBy [empty.declaring files] = m.declaring files := by
  simp [followedBy, declaring, empty, Function.comp_def]

theorem load_of_load_empty (h : empty.load s = .ok n) (m : Imported) : m.load s = .ok (m.followedBy [n]) := by
  obtain ⟨es, hes, rfl⟩ := load_eq_ok_iff.1 h
  rw [addAll_eq, followedBy_declaring]
  exact load_of_skillsets hes m

def typeNames (m : Imported) : List String := m.types.map (·.name)

def skillLists (m : Imported) : List (String × List String) := m.skillsets.map fun s => (s.name, s.skills)

/-- The imported entries are these, in their order within each kind, but for numbers and positions. -/
structure Holds (m : Imported) (es : List SkillsetEntry) : Prop where
  types : m.typeNames = es.filterMap SkillsetEntry.type?
  skillsets : m.skillLists = es.filterMap SkillsetEntry.skillset?

theorem Holds.congr (h : m.Holds es) (hmap : es.map SkillsetEntry.unmarked = fs.map SkillsetEntry.unmarked) :
    m.Holds fs := by
  have ht := congrArg (List.filterMap SkillsetEntry.type?) hmap
  have hs := congrArg (List.filterMap SkillsetEntry.skillset?) hmap
  simp only [List.filterMap_map, Function.comp_def, SkillsetEntry.type?_unmarked,
    SkillsetEntry.skillset?_unmarked] at ht hs
  exact ⟨h.types.trans ht, h.skillsets.trans hs⟩

theorem typeNames_declaring (m : Imported) (files : List SkillsetText) :
    (m.declaring files).typeNames = m.typeNames ++ (files.flatMap SkillsetText.types).map (·.1) := by
  simp only [typeNames, declaring, List.map_append]
  congr 1
  exact map_mapIdx_eq_map _ fun _ _ => rfl

theorem skillLists_declaring (m : Imported) (files : List SkillsetText) :
    (m.declaring files).skillLists =
      m.skillLists ++ (files.flatMap SkillsetText.skillsets).map fun s => (s.1, s.2.1) := by
  simp only [skillLists, declaring, List.map_append]
  congr 1
  exact map_mapIdx_eq_map _ fun _ _ => rfl

theorem holds_declaring (f : SkillsetText) : (empty.declaring [f]).Holds f.entries where
  types := by rw [typeNames_declaring, List.flatMap_singleton, f.map_types]; rfl
  skillsets := by rw [skillLists_declaring, List.flatMap_singleton, f.map_skillsets]; rfl

theorem load_empty_of_declares (h : s.Declares es) : ∃ n, empty.load s = .ok n ∧ n.Holds es := by
  obtain ⟨fs, hfs, hmap⟩ := h
  exact ⟨empty.declaring [⟨s, fs⟩], load_of_skillsets hfs empty, (holds_declaring ⟨s, fs⟩).congr hmap⟩

theorem declares_of_load_empty (h : empty.load s = .ok n) : ∃ es, s.Declares es ∧ n.Holds es := by
  obtain ⟨es, hes, rfl⟩ := load_eq_ok_iff.1 h
  rw [addAll_eq]
  exact ⟨es, ⟨es, hes, rfl⟩, holds_declaring ⟨s, es⟩⟩

theorem unplaced_followedBy (m : Imported) (ds : List Imported) :
    (m.followedBy ds).unplaced =
      ⟨m.types.map Entity.unplaced ++
          (ds.flatMap typeNames).mapIdx fun i name => ⟨⟨m.types.length + i⟩, name, none⟩,
        m.skillsets.map Skillset.unplaced ++
          (ds.flatMap skillLists).mapIdx fun i s => ⟨⟨⟨m.skillsets.length + i⟩, s.1, none⟩, s.2⟩⟩ := by
  have ht : ds.flatMap typeNames = (ds.flatMap (·.types)).map (·.name) := List.map_flatMap.symm
  have hs : ds.flatMap skillLists = (ds.flatMap (·.skillsets)).map fun s => (s.name, s.skills) :=
    List.map_flatMap.symm
  rw [unplaced, followedBy, List.map_append, List.map_append, ht, hs]
  congr 2
  · refine (List.mapIdx_eq_iff.2 fun i => ?_).symm
    simp [Function.comp_def, Entity.unplaced]
  · refine (List.mapIdx_eq_iff.2 fun i => ?_).symm
    simp [Function.comp_def, Skillset.unplaced, Entity.unplaced]

/-- Where two texts are accepted, one behind the other is as well, and is loaded, up to positions, as first
the one and then the other. -/
theorem load_append_line {da db : Imported} (ha : empty.load ⟨none, a.toList⟩ = .ok da)
    (hb : empty.load ⟨none, b.toList⟩ = .ok db) (m : Imported) :
    m.load ⟨none, a.toList⟩ = .ok (m.followedBy [da]) ∧
      (m.followedBy [da]).load ⟨none, b.toList⟩ = .ok (m.followedBy [da, db]) ∧
      ∃ n, m.load ⟨none, (a ++ "\n" ++ b).toList⟩ = .ok n ∧
        n.unplaced = (m.followedBy [da, db]).unplaced := by
  obtain ⟨es, hes, hda⟩ := declares_of_load_empty ha
  obtain ⟨fs, hfs, hdb⟩ := declares_of_load_empty hb
  have htext : (a ++ "\n" ++ b).toList = a.toList ++ '\n' :: b.toList := by
    simp
  obtain ⟨d, hd, hboth⟩ := load_empty_of_declares (hes.append_line hfs)
  refine ⟨load_of_load_empty ha m, ?_, m.followedBy [d], ?_, ?_⟩
  · rw [load_of_load_empty hb, followedBy_followedBy]
    rfl
  · rw [htext, load_of_load_empty hd]
  · have htypes : [d].flatMap typeNames = [da, db].flatMap typeNames := by
      simp [hboth.types, hda.types, hdb.types]
    have hskillsets : [d].flatMap skillLists = [da, db].flatMap skillLists := by
      simp [hboth.skillsets, hda.skillsets, hdb.skillsets]
    rw [unplaced_followedBy, unplaced_followedBy, htypes, hskillsets]

theorem load_append_line_arm :
    let m : Imported := ⟨[⟨⟨4⟩, "pose", none⟩], [⟨⟨⟨0⟩, "arm", none⟩, ["grip"]⟩]⟩
    let a := "type skill skillset arm // lifts"
    let b := "skillset type \x7b skill skill skill lift \x7d"
    ∃ da db n, empty.load ⟨none, a.toList⟩ = .ok da ∧ empty.load ⟨none, b.toList⟩ = .ok db ∧
      m.load ⟨none, (a ++ "\n" ++ b).toList⟩ = .ok n ∧ n.unplaced = (m.followedBy [da, db]).unplaced ∧
      n.unplaced = ⟨[⟨⟨4⟩, "pose", none⟩, ⟨⟨1⟩, "skill", none⟩],
        [⟨⟨⟨0⟩, "arm", none⟩, ["grip"]⟩, ⟨⟨⟨1⟩, "arm", none⟩, []⟩, ⟨⟨⟨2⟩, "type", none⟩, ["skill", "lift"]⟩]⟩ := by
  intro m a b
  let da : Imported := ⟨[⟨⟨0⟩, "skill", some ⟨none, 1, 1⟩⟩], [⟨⟨⟨0⟩, "arm", some ⟨none, 1, 12⟩⟩, []⟩]⟩
  let db : Imported := ⟨[], [⟨⟨⟨0⟩, "type", some ⟨none, 1, 1⟩⟩, ["skill", "lift"]⟩]⟩
  have ha : empty.load ⟨none, a.toList⟩ = .ok da := by decide +kernel
  have hb : empty.load ⟨none, b.toList⟩ = .ok db := by decide +kernel
  obtain ⟨-, -, n, hn, hu⟩ := load_append_line ha hb m
  exact ⟨da, db, n, ha, hb, hn, hu, hu.trans (by decide +kernel)⟩

end Imported

end RobotLang
