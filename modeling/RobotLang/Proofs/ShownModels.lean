import RobotLang.Model.Summary
import RobotLang.Proofs.Bindings
import RobotLang.Proofs.RoundTrip

namespace RobotLang.Model

open Files

variable {m n : Model}

theorem Bears.isWritable {ps : List Parameter} {name : String} {type : ParamType}
    (h : m.Bears ps name (.type type)) : type.isWritable = true := by
  cases type with
  | declared id | imported id | skillset id => rfl
  | undefined | boolean | unresolved name' position | abstract => exact h.elim

theorem Bears.targetText?_eq {ps : List Parameter} {name : String} {t : Target} (h : m.Bears ps name t) :
    m.targetText? (some t) = some (m.targetText (some t)) := by
  cases t with
  | parameter index | function id | method id => rfl
  | type type => rw [targetText?, typeText?, if_pos h.isWritable, Option.map_some]

theorem isSome_targetText? {f : Function} (h : f.Correct m) {name : String} {target : Option Target}
    (hb : (name, target) ∈ Expr.bindingsOf f.body) : (m.targetText? target).isSome = true := by
  rw [Expr.bindingsOf_eq_map, List.mem_map] at hb
  obtain ⟨o, ho, heq⟩ := hb
  obtain ⟨rfl, rfl⟩ := Prod.mk.inj heq
  cases ht : o.target with
  | none => rfl
  | some t =>
      rw [(h o ho t ht).1.targetText?_eq]
      rfl

theorem IsBoundCorrectly.summary?_eq (h : m.IsBoundCorrectly)
    (hf : ∀ f ∈ m.functions, ∀ p ∈ f.parameters, p.type ≠ .abstract)
    (hm : ∀ f ∈ m.methods, ∀ p ∈ f.parameters, p.type ≠ .abstract) : m.summary? = some m.summary := by
  have hs : m.isSummarizable = true := by
    rw [isSummarizable, Bool.and_eq_true, List.all_eq_true, List.all_eq_true]
    refine ⟨fun f hmem => ?_, fun f hmem => parametersWritable_of_ne (hm f hmem)⟩
    rw [parametersWritable_of_ne (hf f hmem), Bool.true_and, List.all_eq_true]
    exact fun b hb => isSome_targetText? (h.correct f hmem) hb
  rw [summary?, if_pos hs]

namespace Passes

theorem text?_eq (h : m.Passes n) (hm : m.IsNumbered) (hr : m.IsRead) : n.text? = some n.text := by
  have hf := h.functions_written hm hr
  exact text?_of_readable (fun f hmem => ⟨(hf f hmem).2.1.ne_abstract, (hf f hmem).2.2⟩)
    fun f hmem => (h.methods_written hm hr f hmem).2.ne_abstract

theorem summary?_eq (h : m.Passes n) (hm : m.IsNumbered) (hr : m.IsRead) (hb : n.IsBoundCorrectly) :
    n.summary? = some n.summary :=
  hb.summary?_eq (fun f hf => (h.functions_written hm hr f hf).2.1.ne_abstract)
    fun f hf => (h.methods_written hm hr f hf).2.ne_abstract

end Passes

section ProgramFiles

variable {t : Tree} {path : String} {imported after : Imported}

theorem parseFile_eq_ok_iff :
    parseFile t path imported = (.ok m, after) ↔
      ∃ p s, programSource t path = .ok (p, s) ∧ parseSource t p.parent.text s imported = (.ok m, after) := by
  rw [parseFile]
  rcases programSource t path with e | ⟨p, s⟩
  · simp
  · simp only [Except.ok.injEq, Prod.mk.injEq]
    grind

theorem text?_of_parseFile (h : parseFile t path imported = (.ok m, after)) : m.text? = some m.text := by
  obtain ⟨p, s, -, hparse⟩ := parseFile_eq_ok_iff.1 h
  exact (isRead_of_parseSource hparse).text?_eq

/-- What is built of a program file that is added to imported entries has a text and a summary. -/
theorem shown_of_buildFile (hi : Reachable (.besides imported))
    (h : buildFile t path imported = (.ok m, after)) : m.text? = some m.text ∧ m.summary? = some m.summary := by
  obtain ⟨l, hparse, hrun⟩ := checked_eq_ok_iff.1 h
  obtain ⟨p, s, -, hparse⟩ := parseFile_eq_ok_iff.1 hparse
  have hl := hi.parseSource hparse
  have hread := isRead_of_parseSource hparse
  have hpasses := passes_of_runAll_check hl.isNumbered hrun
  exact ⟨hpasses.text?_eq hl.isNumbered hread,
    hpasses.summary?_eq hl.isNumbered hread (hl.runAll hrun).isBoundCorrectly⟩

end ProgramFiles

end RobotLang.Model
