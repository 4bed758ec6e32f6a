import RobotLang.Proofs.Paths
import RobotLang.Proofs.SkillsetTexts

namespace RobotLang

open Files Grammar

section Distinct

variable {α : Type} [DecidableEq α]

theorem distinctFrom_eq (seen as : List α) :
    distinctFrom seen as = (as.filter fun a => decide (a ∉ seen)).eraseDups := by
  induction as generalizing seen with
  | nil => rfl
  | cons a as ih =>
      rw [distinctFrom]
      by_cases ha : a ∈ seen
      · rw [if_pos ha, ih, List.filter_cons_of_neg (by simpa using ha)]
      · rw [if_neg ha, ih, List.filter_cons_of_pos (by simpa using ha), List.eraseDups_cons, List.filter_filter]
        congr 3
        funext b
        by_cases hb : b = a <;> simp [hb]

theorem distinct_eq_eraseDups (as : List α) : distinct as = as.eraseDups := by
  rw [distinct, distinctFrom_eq]
  simp

end Distinct

namespace Files.Tree

/-- Nothing is at a path, because a name on the way is not there or is that of a file. -/
def Lacks (t : Tree) (p : Path) : Prop := t.look p = .error .missing ∨ t.look p = .error .belowFile

def Loads (t : Tree) (p : Path) : Prop := ¬ t.Lacks p ∧ ∃ m, Imported.empty.loadFile t p.text = .ok m

def FailsWith (t : Tree) (p : Path) (e : Error) : Prop :=
  t.Lacks p ∧ e = .includeMissing p.text ∨ ¬ t.Lacks p ∧ Imported.empty.loadFile t p.text = .error e

/-- The bytes at a path decode to a text that lays out some entries. -/
def HoldsSkillsets (t : Tree) (p : Path) : Prop :=
  ∃ data cs, t.look p = .ok (.bytes data) ∧ decode data = .ok cs ∧
    ∃ es : List (Bool × SkillsetEntry), es ≠ [] ∧ Layout (skillsetLexemes es) (unifyLines cs)

/-- The bytes at a path decode to a text in which the entries are laid out, one after the other and with
nothing else, and they are read from it with their marks. -/
structure Declares (t : Tree) (p : Path) (f : SkillsetText) : Prop where
  source : ∃ data cs, t.look p = .ok (.bytes data) ∧ decode data = .ok cs ∧ f.source = ⟨some p.text, unifyLines cs⟩
  layout : ∃ es : List (Bool × SkillsetEntry), es.map Prod.snd = f.entries ∧ Layout (skillsetLexemes es) f.source.text
  read : f.source.skillsets = .ok f.entries

variable {t : Tree} {p : Path} {f g : SkillsetText}

theorem readText_eq_ok_iff {text : List Char} :
    t.readText p.text p = .ok text ↔
      ∃ data cs, t.look p = .ok (.bytes data) ∧ decode data = .ok cs ∧ text = unifyLines cs := by
  rw [readText, look]
  constructor
  · intro h
    split at h
    · cases h
    · cases h
    next data hdata =>
      split at h
      · cases h
      next cs hcs => exact ⟨data, cs, hdata, hcs, (Except.ok.inj h).symm⟩
  · rintro ⟨data, cs, hdata, hcs, rfl⟩
    simp only [hdata, hcs]

theorem declares_iff :
    t.Declares p f ↔ ∃ text, t.readText p.text p = .ok text ∧ f.source = ⟨some p.text, text⟩ ∧
      f.source.skillsets = .ok f.entries := by
  constructor
  · rintro ⟨⟨data, cs, hdata, hcs, hs⟩, -, hread⟩
    exact ⟨_, readText_eq_ok_iff.2 ⟨data, cs, hdata, hcs, rfl⟩, hs, hread⟩
  · rintro ⟨text, htext, hs, hread⟩
    obtain ⟨data, cs, hdata, hcs, rfl⟩ := readText_eq_ok_iff.1 htext
    obtain ⟨⟨r, hrun⟩, -⟩ := Source.read_eq_ok_iff.1 hread
    exact ⟨⟨data, cs, hdata, hcs, hs⟩, layout_of_run_skillsetFile hrun, hread⟩

theorem Declares.holdsSkillsets (h : t.Declares p f) : t.HoldsSkillsets p := by
  obtain ⟨⟨data, cs, hdata, hcs, hs⟩, ⟨es, hes, hlay⟩, hread⟩ := h
  rw [hs] at hlay
  refine ⟨data, cs, hdata, hcs, es, ?_, hlay⟩
  rintro rfl
  exact (Source.read_eq_ok_iff.1 hread).2 hes.symm

theorem HoldsSkillsets.declares (h : t.HoldsSkillsets p) : ∃ f, t.Declares p f := by
  obtain ⟨data, cs, hdata, hcs, es, hne, hlay⟩ := h
  let s : Source := ⟨some p.text, unifyLines cs⟩
  obtain ⟨fs, hfs, -⟩ : s.Declares (es.map Prod.snd) :=
    Source.declares_iff_layout.2 ⟨mt List.map_eq_nil_iff.1 hne, es, by rw [List.map_map]; rfl, hlay⟩
  have htext := readText_eq_ok_iff.2 ⟨data, cs, hdata, hcs, rfl⟩
  exact ⟨⟨s, fs⟩, declares_iff.2 ⟨_, htext, rfl, hfs⟩⟩

theorem Declares.not_lacks (h : t.Declares p f) : ¬ t.Lacks p := by
  obtain ⟨data, -, hdata, -⟩ := h.source
  rw [Lacks, hdata]
  exact not_or.2 ⟨nofun, nofun⟩

theorem Declares.unique (h : t.Declares p f) (h' : t.Declares p g) : f = g := by
  obtain ⟨text, htext, hs, hread⟩ := declares_iff.1 h
  obtain ⟨text', htext', hs', hread'⟩ := declares_iff.1 h'
  obtain rfl := Except.ok.inj (htext.symm.trans htext')
  have hsource : f.source = g.source := hs.trans hs'.symm
  rw [hsource] at hread
  have hentries : f.entries = g.entries := Except.ok.inj (hread.symm.trans hread')
  cases f
  cases g
  rw [SkillsetText.mk.injEq]
  exact ⟨hsource, hentries⟩

theorem readExisting_of_not_lacks (h : ¬ t.Lacks p) (missing : Error) :
    t.readExisting p missing = t.readText p.text p := by
  rw [readExisting]
  split
  next hl => exact absurd (.inl hl) h
  next hl => exact absurd (.inr hl) h
  · rfl

end Files.Tree

namespace Imported

variable {t : Tree} {p : Path} {f : SkillsetText}

theorem loadInclude_of_lacks (m : Imported) (h : t.Lacks p) :
    m.loadInclude t p = .error (.includeMissing p.text) := by
  rw [loadInclude, Tree.existingSource, Tree.readExisting]
  rcases h with h | h <;> rw [h] <;> rfl

theorem loadFile_text (m : Imported) (hp : p.IsProper) : m.loadFile t p.text = m.loadShown t p.text p := by
  rw [loadFile, Path.spell_text hp, Path.spelledText_text hp]

theorem loadInclude_of_not_lacks (m : Imported) (h : ¬ t.Lacks p) :
    m.loadInclude t p = m.loadShown t p.text p := by
  rw [loadInclude, Tree.existingSource, Tree.readExisting_of_not_lacks h]
  rfl

theorem loadInclude_of_declares (m : Imported) (h : t.Declares p f) : m.loadInclude t p = .ok (m.declaring [f]) := by
  obtain ⟨text, htext, hs, hread⟩ := Tree.declares_iff.1 h
  rw [loadInclude_of_not_lacks m h.not_lacks, loadShown, Tree.source, htext]
  show m.load ⟨some p.text, text⟩ = _
  rw [← hs]
  exact load_of_skillsets hread m

theorem declares_of_loads (hp : p.IsProper) (h : t.Loads p) : ∃ f, t.Declares p f := by
  obtain ⟨-, m, hm⟩ := h
  rw [loadFile_text empty hp, loadShown, Tree.source] at hm
  cases htext : t.readText p.text p with
  | error e => rw [htext] at hm; cases hm
  | ok text =>
      rw [htext] at hm
      have hload : empty.load ⟨some p.text, text⟩ = .ok m := hm
      obtain ⟨es, hes, -⟩ := load_eq_ok_iff.1 hload
      exact ⟨⟨⟨some p.text, text⟩, es⟩, Tree.declares_iff.2 ⟨text, htext, rfl, hes⟩⟩

theorem loadShown_eq_error {shown : String} {e : Error} (h : empty.loadShown t shown p = .error e) (m : Imported) :
    m.loadShown t shown p = .error e := by
  rw [loadShown] at h ⊢
  cases hs : t.source shown p with
  | error e' => rw [hs] at h; exact h
  | ok s =>
      rw [hs] at h
      exact load_eq_error_iff.2 (load_eq_error_iff.1 h)

theorem loads_iff_holdsSkillsets (hp : p.IsProper) : t.Loads p ↔ t.HoldsSkillsets p := by
  constructor
  · intro h
    obtain ⟨f, hf⟩ := declares_of_loads hp h
    exact hf.holdsSkillsets
  · intro h
    obtain ⟨f, hf⟩ := h.declares
    refine ⟨hf.not_lacks, empty.declaring [f], ?_⟩
    rw [loadFile_text empty hp, ← loadInclude_of_not_lacks empty hf.not_lacks]
    exact loadInclude_of_declares empty hf

theorem failsWith_of_not_loads (hp : p.IsProper) (h : ¬ t.Loads p) (m : Imported) :
    ∃ e, t.FailsWith p e ∧ m.loadInclude t p = .error e := by
  by_cases hl : t.Lacks p
  · exact ⟨_, .inl ⟨hl, rfl⟩, loadInclude_of_lacks m hl⟩
  · cases he : empty.loadFile t p.text with
    | ok n => exact absurd ⟨hl, n, he⟩ h
    | error e =>
        have hshown : empty.loadShown t p.text p = .error e := (loadFile_text empty hp).symm.trans he
        exact ⟨e, .inr ⟨hl, he⟩, (loadInclude_of_not_lacks m hl).trans (loadShown_eq_error hshown m)⟩

theorem loadFiles_append {before : List Path} {files : List SkillsetText}
    (h : List.Forall₂ t.Declares before files) (m : Imported) (rest : List Path) :
    m.loadFiles t (before ++ rest) = (m.declaring files).loadFiles t rest := by
  induction h generalizing m with
  | nil => rw [declaring_nil]; rfl
  | @cons p f before files hf _ ih =>
      have hrest := ih (m.declaring [f])
      rw [declaring_declaring] at hrest
      rw [List.cons_append, loadFiles, loadInclude_of_declares m hf]
      exact hrest

end Imported

theorem exists_forall₂ {α β : Type} {R : α → β → Prop} {as : List α} (h : ∀ a ∈ as, ∃ b, R a b) :
    ∃ bs, List.Forall₂ R as bs := by
  induction as with
  | nil => exact ⟨[], .nil⟩
  | cons a as ih =>
      obtain ⟨⟨b, hb⟩, has⟩ := List.forall_mem_cons.1 h
      obtain ⟨bs, hbs⟩ := ih has
      exact ⟨b :: bs, .cons hb hbs⟩

namespace Model

/-- The includes name paths, however they are spelled, and of those each one is loaded once, in the order
in which they are first named. If all can be loaded, what they declare follows the imported entries that
were there, file by file. Otherwise the first one that cannot is reported, and what the files before it
declare follows. Nothing else of the model changes. -/
theorem loadIncludes_each_once_in_order (t : Tree) (ht : t.home.IsProper) (base : String) (m : Model) :
    ∃ named, List.Forall₂ (t.home.Names base) m.includes named ∧
      (∀ p ∈ named, t.Loads p ↔ t.HoldsSkillsets p) ∧
      ((∀ p ∈ named.eraseDups, t.Loads p) →
        ∃ files, List.Forall₂ t.Declares named.eraseDups files ∧
          m.loadIncludes t base = ({ m with imported := m.imported.declaring files }, none)) ∧
      ∀ before p after, named.eraseDups = before ++ p :: after → (∀ q ∈ before, t.Loads q) → ¬ t.Loads p →
        ∃ files e, List.Forall₂ t.Declares before files ∧ t.FailsWith p e ∧
          m.loadIncludes t base = ({ m with imported := m.imported.declaring files }, some e) := by
  let named := m.includes.map fun file => t.home.resolve (Path.below base file)
  have hnamed : ∀ p ∈ named, p.IsProper := by
    intro p hp
    obtain ⟨file, -, rfl⟩ := List.mem_map.1 hp
    exact Path.Names.isProper ht (Path.names_iff.2 rfl)
  have hproper : ∀ p ∈ named.eraseDups, p.IsProper := fun p hp => hnamed p (List.mem_eraseDups.1 hp)
  have hpaths : m.includePaths t.home base = named.eraseDups := distinct_eq_eraseDups named
  rw [loadIncludes, hpaths]
  refine ⟨named, Path.forall₂_names_iff.2 rfl, fun p hp => Imported.loads_iff_holdsSkillsets (hnamed p hp),
    fun hall => ?_, fun before p after hsplit hbefore hp => ?_⟩
  · obtain ⟨files, hfiles⟩ := exists_forall₂ fun p hp => Imported.declares_of_loads (hproper p hp) (hall p hp)
    have hrun := Imported.loadFiles_append hfiles m.imported []
    rw [List.append_nil] at hrun
    exact ⟨files, hfiles, by rw [hrun]; rfl⟩
  · rw [hsplit] at hproper ⊢
    obtain ⟨hearlier, hrest⟩ := List.forall_mem_append.1 hproper
    obtain ⟨files, hfiles⟩ := exists_forall₂ fun q hq => Imported.declares_of_loads (hearlier q hq) (hbefore q hq)
    obtain ⟨e, hfails, he⟩ :=
      Imported.failsWith_of_not_loads (List.forall_mem_cons.1 hrest).1 hp (m.imported.declaring files)
    have hrun := Imported.loadFiles_append hfiles m.imported (p :: after)
    rw [Imported.loadFiles, he] at hrun
    exact ⟨files, e, hfiles, hfails, by rw [hrun]⟩

theorem loadIncludes_each_once_in_order_pose :
    let t : Tree := ⟨⟨["w"]⟩,
      [(⟨["w", "a"]⟩, .bytes "type pose skillset arm \x7b skill grip \x7d\ntype map".toUTF8.toList),
        (⟨["w", "lib", "b"]⟩, .bytes "skillset base".toUTF8.toList)]⟩
    let m : Model := besides ⟨[⟨⟨0⟩, "grip", none⟩], [⟨⟨⟨0⟩, "hand", none⟩, ["grip"]⟩]⟩
    let arm (k : Nat) : Skillset := ⟨⟨⟨k⟩, "arm", some ⟨some "/w/a", 1, 11⟩⟩, ["grip"]⟩
    let base (k : Nat) : Skillset := ⟨⟨⟨k⟩, "base", some ⟨some "/w/lib/b", 1, 1⟩⟩, []⟩
    { m with includes := ["a", "lib/..//./a", "lib/b", "../w/a"] }.loadIncludes t "" =
        ({ m with
            includes := ["a", "lib/..//./a", "lib/b", "../w/a"]
            imported := ⟨m.imported.types ++ [⟨⟨1⟩, "pose", some ⟨some "/w/a", 1, 1⟩⟩,
              ⟨⟨2⟩, "map", some ⟨some "/w/a", 2, 1⟩⟩], m.imported.skillsets ++ [arm 1, base 2]⟩ }, none) ∧
      { m with includes := ["lib/b", "../c", "a"] }.loadIncludes t "" =
        ({ m with
            includes := ["lib/b", "../c", "a"]
            imported := ⟨m.imported.types, m.imported.skillsets ++ [base 1]⟩ }, some (.includeMissing "/c")) := by
  intro t m arm base
  have ht : t.home.IsProper := by
    refine List.forall_mem_singleton.2 ⟨⟨?_, ?_, ?_⟩, ?_⟩ <;> decide
  let a : SkillsetText := ⟨⟨some "/w/a", "type pose skillset arm \x7b skill grip \x7d\ntype map".toList⟩,
    [.type 46 "pose", .skillset 36 "arm" ["grip"], .type 8 "map"]⟩
  let b : SkillsetText := ⟨⟨some "/w/lib/b", "skillset base".toList⟩, [.skillset 13 "base" []]⟩
  have ha : t.Declares ⟨["w", "a"]⟩ a :=
    Tree.declares_iff.2 ⟨a.source.text, by decide +kernel, rfl, by decide +kernel⟩
  have hb : t.Declares ⟨["w", "lib", "b"]⟩ b :=
    Tree.declares_iff.2 ⟨b.source.text, by decide +kernel, rfl, by decide +kernel⟩
  have hunique : Relator.RightUnique t.Declares := fun _ _ _ h h' => h.unique h'
  constructor
  · obtain ⟨named, hnamed, hloads, hrun, -⟩ := loadIncludes_each_once_in_order t ht ""
      { m with includes := ["a", "lib/..//./a", "lib/b", "../w/a"] }
    have hpaths : named = [⟨["w", "a"]⟩, ⟨["w", "a"]⟩, ⟨["w", "lib", "b"]⟩, ⟨["w", "a"]⟩] :=
      (Path.forall₂_names_iff.1 hnamed).trans (by decide +kernel)
    subst hpaths
    have hdistinct : ([⟨["w", "a"]⟩, ⟨["w", "a"]⟩, ⟨["w", "lib", "b"]⟩, ⟨["w", "a"]⟩] : List Path).eraseDups =
        [⟨["w", "a"]⟩, ⟨["w", "lib", "b"]⟩] := by decide
    rw [hdistinct] at hrun
    have hall : ∀ p ∈ ([⟨["w", "a"]⟩, ⟨["w", "lib", "b"]⟩] : List Path), t.Loads p := by
      simp only [List.forall_mem_cons]
      exact ⟨(hloads _ (by decide)).2 ha.holdsSkillsets, (hloads _ (by decide)).2 hb.holdsSkillsets,
        List.forall_mem_nil _⟩
    obtain ⟨files, hfiles, hrun⟩ := hrun hall
    obtain rfl := List.right_unique_forall₂' hunique hfiles (.cons ha (.cons hb .nil))
    rw [hrun]
    rfl
  · obtain ⟨named, hnamed, hloads, -, hrun⟩ := loadIncludes_each_once_in_order t ht ""
      { m with includes := ["lib/b", "../c", "a"] }
    have hpaths : named = [⟨["w", "lib", "b"]⟩, ⟨["c"]⟩, ⟨["w", "a"]⟩] :=
      (Path.forall₂_names_iff.1 hnamed).trans (by decide +kernel)
    subst hpaths
    have hlacks : t.Lacks ⟨["c"]⟩ := .inl (by decide +kernel)
    obtain ⟨files, e, hfiles, he, hrun⟩ := hrun [⟨["w", "lib", "b"]⟩] ⟨["c"]⟩ [⟨["w", "a"]⟩] (by decide)
      (List.forall_mem_singleton.2 ((hloads _ (by decide)).2 hb.holdsSkillsets)) fun h => h.1 hlacks
    obtain rfl := List.right_unique_forall₂' hunique hfiles (.cons hb .nil)
    obtain ⟨-, rfl⟩ | ⟨hn, -⟩ := he
    · rw [hrun]
      rfl
    · exact absurd hlacks hn

end Model

end RobotLang
