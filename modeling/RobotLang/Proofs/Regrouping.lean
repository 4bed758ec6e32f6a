import RobotLang.Proofs.RoundTrip
import RobotLang.Proofs.Stores

namespace RobotLang

open Files Grammar

variable {m n : Model} {imported : Imported}

namespace Model

theorem unplaced_eq_of_models {s s' : Source} (hm : s.model imported = .ok m)
    (hn : s'.model imported = .ok n) (h : m.contents = n.contents) : m.unplaced = n.unplaced := by
  obtain ⟨ds, -, rfl⟩ := Source.model_eq_ok_iff.1 hm
  obtain ⟨es, -, rfl⟩ := Source.model_eq_ok_iff.1 hn
  have hempty : (besides imported).contents = Contents.empty := rfl
  rw [contents_foldl, contents_foldl, hempty, Contents.empty_append, Contents.empty_append] at h
  exact unplaced_eq_of_declarations imported h

theorem text?_of_unplaced_eq (h : m.unplaced = n.unplaced) : m.text? = n.text? := by
  rw [← text?_unplaced, h, text?_unplaced]

end Model

namespace Edit

def IsPass : Edit → Prop
  | loadSkillset .. | loadSkillsetFile .. | loadIncludes .. | run .. => True
  | _ => False

structure Agree (r r' : Model × Option Error) : Prop where
  models : r.1.unplaced = r'.1.unplaced
  errors : r.2.map Error.unplaced = r'.2.map Error.unplaced

theorem agree_withImported (h : m.unplaced = n.unplaced) (load : Imported → Except Error Imported) :
    Agree (withImported m (load m.imported)) (withImported n (load n.imported)) := by
  have hi : m.unplaced.imported = n.unplaced.imported := by rw [h]
  rw [show m.imported = n.imported from hi]
  cases load n.imported with
  | ok imported =>
      have hu : { m.unplaced with imported } = { n.unplaced with imported } := by rw [h]
      exact ⟨hu, rfl⟩
  | error e => exact ⟨h, rfl⟩

theorem agree_apply (h : m.unplaced = n.unplaced) (t : Tree) {e : Edit} (he : e.IsPass) :
    Agree (e.apply t m) (e.apply t n) := by
  cases e with
  | loadSkillset text => exact agree_withImported h (·.load ⟨none, text.toList⟩)
  | loadSkillsetFile path => exact agree_withImported h (·.loadFile t path)
  | loadIncludes base =>
      have hl := congrArg (Model.loadIncludes t base) h
      rw [Model.loadIncludes_unplaced, Model.loadIncludes_unplaced, Prod.mk.injEq] at hl
      exact ⟨hl.1, congrArg (Option.map Error.unplaced) hl.2⟩
  | run stages =>
      have hr := congrArg (Stage.runAll stages) h
      rw [Model.runAll_unplaced, Model.runAll_unplaced, Prod.mk.injEq] at hr
      exact ⟨hr.1, hr.2⟩
  | _ => exact he.elim

theorem unplaced_after (h : m.unplaced = n.unplaced) {passes : List (Tree × Edit)}
    (hp : ∀ x ∈ passes, x.2.IsPass) : (after m passes).unplaced = (after n passes).unplaced := by
  induction passes generalizing m n with
  | nil => exact h
  | cons x passes ih =>
      obtain ⟨hx, hp⟩ := List.forall_mem_cons.1 hp
      exact ih (agree_apply h x.1 hx).models hp

end Edit

/-- Two programs that declare the same, kind by kind and up to positions, are read as the same model up to
positions. However they are loaded and checked, each step fails for both or for neither and with the same
error up to positions, and after every step the models are the same up to positions and written alike. -/
theorem Source.regrouped_programs_agree {s s' : Source} (hm : s.model imported = .ok m)
    (hn : s'.model imported = .ok n) (h : m.contents = n.contents) {passes : List (Tree × Edit)}
    (hp : ∀ x ∈ passes, x.2.IsPass) :
    (Edit.after m passes).unplaced = (Edit.after n passes).unplaced ∧
      (Edit.after m passes).text? = (Edit.after n passes).text? ∧
      ∀ (t : Tree) (e : Edit), e.IsPass →
        Edit.Agree (e.apply t (Edit.after m passes)) (e.apply t (Edit.after n passes)) := by
  have hu : m.unplaced = n.unplaced := Model.unplaced_eq_of_models hm hn h
  have hafter : (Edit.after m passes).unplaced = (Edit.after n passes).unplaced := Edit.unplaced_after hu hp
  exact ⟨hafter, Model.text?_of_unplaced_eq hafter, fun t e he => Edit.agree_apply hafter t he⟩

theorem Source.regrouped_programs_agree_go :
    let t : Tree := ⟨.root, []⟩
    let s : Source := ⟨none, "type pose fn go(to: pose) \x7b publish('at', to); halt \x7d robot arm".toList⟩
    let s' : Source :=
      ⟨none, "robot arm // up\nfn go(to:pose)\n\x7b publish(\"at\", to); halt; \x7d type pose".toList⟩
    let passes : List (Tree × Edit) := [(t, .loadIncludes "")]
    ∃ m n, s.model .empty = .ok m ∧ s'.model .empty = .ok n ∧ m.contents = n.contents ∧
      (∀ x ∈ passes, x.2.IsPass) ∧
      Edit.Agree ((Edit.run Stage.check).apply t (Edit.after m passes))
        ((Edit.run Stage.check).apply t (Edit.after n passes)) ∧
      ((Edit.run Stage.check).apply t (Edit.after m passes)).2 =
        some (.unresolved "identifier 'halt'" (some ⟨none, 1, 48⟩)) ∧
      ((Edit.run Stage.check).apply t (Edit.after n passes)).2 =
        some (.unresolved "identifier 'halt'" (some ⟨none, 3, 22⟩)) := by
  intro t s s' passes
  let ds : List Declaration := [.type 63 "pose", .function 53 "go" [⟨47, "to", 43, "pose"⟩]
    [.ros 35 .publish "at" [.name 21 "to"], .name 16 "halt"], .robot 9 "arm"]
  let es : List Declaration := [.robot 69 "arm", .function 53 "go" [⟨47, "to", 44, "pose"⟩]
    [.ros 36 .publish "at" [.name 22 "to"], .name 17 "halt"], .type 9 "pose"]
  have hs : s.program = .ok ds :=
    Source.program_eq_ok_iff.2 ⟨⟨[], by decide +kernel⟩, by decide, by decide⟩
  have hs' : s'.program = .ok es :=
    Source.program_eq_ok_iff.2 ⟨⟨[], by decide +kernel⟩, by decide, by decide⟩
  let m := ds.foldl (Model.add s) (.besides .empty)
  let n := es.foldl (Model.add s') (.besides .empty)
  have hm : s.model .empty = .ok m := Source.model_eq_ok_iff.2 ⟨ds, hs, rfl⟩
  have hn : s'.model .empty = .ok n := Source.model_eq_ok_iff.2 ⟨es, hs', rfl⟩
  have hcontents : m.contents = n.contents := by
    rw [contents_foldl, contents_foldl]
    rfl
  have hp : ∀ x ∈ passes, x.2.IsPass := List.forall_mem_singleton.2 trivial
  obtain ⟨-, -, hagree⟩ := Source.regrouped_programs_agree hm hn hcontents hp
  exact ⟨m, n, hm, hn, hcontents, hp, hagree t _ trivial, by decide +kernel, by decide +kernel⟩

end RobotLang
